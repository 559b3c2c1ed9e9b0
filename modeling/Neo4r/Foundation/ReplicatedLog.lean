/-
  `Foundation.ReplicatedLog`: why a log replicated by elected leaders is consistent.

  Nodes have a current term and a log; a term has at most one leader, and the history
  of a term is the log of its leader as far as it got.  Leaders are elected by a
  majority of votes, each given to a candidate whose log is at least as recent as the
  voter's.  A node acknowledges a length when that much of its log agrees with the
  history of its term, and a prefix of a history is certified when a majority has
  acknowledged it and its last entry is of that term.

  The module states the invariant of such a system, shows that every step keeps it,
  and derives that a certified prefix is part of every later history, hence that the
  committed prefixes of two nodes never contradict each other.  The steps are the ones
  a protocol is built from; what a protocol sends over a network is not mentioned.
-/
import Neo4r.Foundation.Majority

set_option autoImplicit false

namespace Neo4r.Foundation.ReplicatedLog

open List

open Function (update update_self update_of_ne forall_update_iff)

variable {N E : Type}

/-- A vote given before the term had a leader, with the voter's log at the time. -/
structure Vote (N E : Type) where
  voter : N
  term : Nat
  candidate : N
  log : List E

/-- In term `term`, the first `length` entries of the node's log agreed with the
history of the term. -/
structure Ack (N : Type) where
  node : N
  term : Nat
  length : Nat

/-- The nodes, the leaders and the record of votes, acknowledgements and certified
prefixes `(term, length)`. -/
structure State (N E : Type) where
  term : N → Nat
  log : N → List E
  commit : N → Nat
  leader : Nat → Option N
  history : Nat → List E
  votes : Set (Vote N E)
  acks : Set (Ack N)
  certs : Set (Nat × Nat)

variable (termOf : E → Nat)

/-- The term of the last entry, zero for an empty log. -/
def lastTerm (l : List E) : Nat := (l.getLast?.map termOf).getD 0

/-- The first log ends in a later term, or in the same term and is not shorter. -/
def UpToDate (candidate voter : List E) : Prop :=
  lastTerm termOf voter < lastTerm termOf candidate ∨
    lastTerm termOf candidate = lastTerm termOf voter ∧ voter.length ≤ candidate.length

/-- Every entry was made by the leader of its term, in the place it has here. -/
def Backed (s : State N E) (l : List E) : Prop :=
  ∀ k e, l[k]? = some e → s.leader (termOf e) ≠ none ∧ l.take (k + 1) <+: s.history (termOf e)

/-- If every leader of a term in `(t, bound)` has the first `k` entries of the history
of `t`, then so does `l`. -/
def Retains (s : State N E) (t bound k : Nat) (l : List E) : Prop :=
  (∀ u, t < u → u < bound → s.leader u ≠ none → (s.history t).take k <+: s.history u) →
    (s.history t).take k <+: l

/-- How the leader of a term was elected. -/
structure Elected (voters : Finset N) [DecidableEq N] (s : State N E) (t : Nat) (c : N)
    (Q : Finset N) (start : List E) : Prop where
  majority : HasMajority voters Q
  start_le : start <+: s.history t
  start_lt : ∀ e ∈ start, termOf e < t
  later : ∀ k e, (s.history t)[k]? = some e → start.length ≤ k → termOf e = t
  votes : ∀ v ∈ Q, v ∈ voters → ∃ vote ∈ s.votes, vote.voter = v ∧ vote.term = t ∧
    vote.candidate = c ∧ UpToDate termOf start vote.log

/-- The invariant of log replication. -/
structure Inv (voters : Finset N) [DecidableEq N] (s : State N E) : Prop where
  history_none : ∀ t, s.leader t = none → s.history t = []
  history_backed : ∀ t, Backed termOf s (s.history t)
  history_le : ∀ t, ∀ e ∈ s.history t, termOf e ≤ t
  log_backed : ∀ n, Backed termOf s (s.log n)
  log_le : ∀ n, ∀ e ∈ s.log n, termOf e ≤ s.term n
  leader_term : ∀ t c, s.leader t = some c → t ≤ s.term c ∧ (s.term c = t → s.log c = s.history t)
  elected : ∀ t c, s.leader t = some c → ∃ Q start, Elected termOf voters s t c Q start
  vote_term : ∀ vote ∈ s.votes, vote.term ≤ s.term vote.voter
  vote_backed : ∀ vote ∈ s.votes, Backed termOf s vote.log
  vote_retains : ∀ vote ∈ s.votes, ∀ ack ∈ s.acks, ack.node = vote.voter →
    ack.term < vote.term → ∀ k ≤ ack.length, Retains s ack.term vote.term k vote.log
  ack_leader : ∀ ack ∈ s.acks, s.leader ack.term ≠ none
  ack_length : ∀ ack ∈ s.acks, ack.length ≤ (s.history ack.term).length
  ack_term : ∀ ack ∈ s.acks, ack.term ≤ s.term ack.node
  ack_retains : ∀ ack ∈ s.acks, ∀ k ≤ ack.length,
    Retains s ack.term (s.term ack.node + 1) k (s.log ack.node)
  cert : ∀ t k, (t, k) ∈ s.certs → 0 < k ∧
    (∃ e, (s.history t)[k - 1]? = some e ∧ termOf e = t) ∧
    ∃ Q, HasMajority voters Q ∧ ∀ v ∈ Q, v ∈ voters →
      ∃ ack ∈ s.acks, ack.node = v ∧ ack.term = t ∧ k ≤ ack.length
  commit_le : ∀ n, s.commit n ≤ (s.log n).length
  commit_cert : ∀ n, s.commit n = 0 ∨ ∃ t k, (t, k) ∈ s.certs ∧
    (s.log n).take (s.commit n) <+: (s.history t).take k

/-! ## Logs that share an entry -/

variable {termOf : E → Nat} {s : State N E} {l l' : List E}

theorem Backed.shorten (h : Backed termOf s l) (hl : l' <+: l) : Backed termOf s l' := by
  intro k e he
  have hk : k < l'.length := (List.getElem?_eq_some_iff.mp he).1
  have hle : l[k]? = some e := by
    rw [← he, prefix_iff_eq_take.mp hl, getElem?_take_of_lt hk]
  have htake : l'.take (k + 1) = l.take (k + 1) := by
    rw [prefix_iff_eq_take.mp hl, take_take, Nat.min_eq_left hk]
  rw [htake]
  exact h k e hle

variable {k : Nat} {e : E}

/-- **Log matching.**  Two backed logs that hold entries of one term at one position
agree up to there. -/
theorem Backed.take_eq (h : Backed termOf s l) (h' : Backed termOf s l') {e' : E}
    (he : l[k]? = some e) (he' : l'[k]? = some e') (hterm : termOf e = termOf e') :
    l.take (k + 1) = l'.take (k + 1) := by
  have hlen : (l.take (k + 1)).length = k + 1 := by
    have := (List.getElem?_eq_some_iff.mp he).1
    rw [length_take]
    omega
  have hlen' : (l'.take (k + 1)).length = k + 1 := by
    have := (List.getElem?_eq_some_iff.mp he').1
    rw [length_take]
    omega
  have hin := (h k e he).2
  have hin' := (h' k e' he').2
  rw [← hterm] at hin'
  exact (prefix_of_prefix_length_le hin hin' (by omega)).eq_of_length (by omega)

/-- A log that is not empty is part of the history of its last term. -/
theorem Backed.history_of_ne_nil (h : Backed termOf s l) (hl : l ≠ []) :
    s.leader (lastTerm termOf l) ≠ none ∧ l <+: s.history (lastTerm termOf l) := by
  have hlast : l[l.length - 1]? = some (l.getLast hl) := by
    rw [← getLast?_eq_getElem?, getLast?_eq_some_getLast hl]
  have hterm : lastTerm termOf l = termOf (l.getLast hl) := by
    rw [lastTerm, getLast?_eq_some_getLast hl]
    rfl
  have hpos : l.length - 1 + 1 = l.length := by
    have := length_pos_iff.mpr hl
    omega
  obtain ⟨hlead, hin⟩ := h _ _ hlast
  rw [hpos, take_length] at hin
  rw [hterm]
  exact ⟨hlead, hin⟩

theorem getElem?_of_isPrefix (h : l <+: l') (he : l[k]? = some e) : l'[k]? = some e := by
  have hk : k < l.length := (List.getElem?_eq_some_iff.mp he).1
  rw [← he, prefix_iff_eq_take.mp h, getElem?_take_of_lt hk]

/-! ## Certified prefixes survive -/

section Completeness

variable [DecidableEq N] {voters : Finset N} {t t' : Nat}

section

variable (inv : Inv termOf voters s)

include inv

/-- No entry of a backed log is of a later term than the last one. -/
theorem Inv.le_lastTerm (h : Backed termOf s l) (he : l[k]? = some e) :
    termOf e ≤ lastTerm termOf l := by
  have hne : l ≠ [] := by
    rintro rfl
    simp at he
  obtain ⟨-, hin⟩ := h.history_of_ne_nil hne
  exact inv.history_le _ e (mem_of_getElem? (getElem?_of_isPrefix hin he))

section

variable (hc : (t, k) ∈ s.certs)

include hc

theorem Inv.leader_of_cert : s.leader t ≠ none := by
  obtain ⟨-, ⟨e, he, -⟩, -⟩ := inv.cert t k hc
  intro hnone
  rw [inv.history_none t hnone] at he
  simp at he

/-- If a voter's log contains a certified prefix and every leader between has it, then
a candidate whose log is up to date has it too. -/
theorem Inv.upToDate_contains {start voterLog : List E} (hstart : Backed termOf s start)
    (hlt : ∀ e ∈ start, termOf e < t') (hvoter : Backed termOf s voterLog)
    (hin : (s.history t).take k <+: voterLog) (hup : UpToDate termOf start voterLog)
    (hbetween : ∀ u, t < u → u < t' → s.leader u ≠ none → (s.history t).take k <+: s.history u) :
    (s.history t).take k <+: start := by
  obtain ⟨hpos, ⟨e, he, hterm⟩, -⟩ := inv.cert t k hc
  have hk : k ≤ (s.history t).length := by
    have := (List.getElem?_eq_some_iff.mp he).1
    omega
  have hlen : ((s.history t).take k).length = k := by
    rw [length_take, Nat.min_eq_left hk]
  have htake : ((s.history t).take k)[k - 1]? = some e := by
    rw [getElem?_take_of_lt (by omega), he]
  have hvoterEntry : voterLog[k - 1]? = some e := getElem?_of_isPrefix hin htake
  have hvoterTerm : t ≤ lastTerm termOf voterLog := hterm ▸ inv.le_lastTerm hvoter hvoterEntry
  have hvoterNe : voterLog ≠ [] := by
    rintro rfl
    simp at hvoterEntry
  have hstartNe : start ≠ [] := by
    rintro rfl
    rcases hup with hlater | ⟨-, hle⟩
    · simp [lastTerm] at hlater
    · exact hvoterNe (eq_nil_of_length_eq_zero (Nat.le_zero.mp hle))
  obtain ⟨hlead, hstartIn⟩ := hstart.history_of_ne_nil hstartNe
  rcases hup with hlater | ⟨hsame, hle⟩
  · -- The candidate's log ends in a later term, whose leader has the prefix.
    have hlastTerm : lastTerm termOf start = termOf (start.getLast hstartNe) := by
      rw [lastTerm, getLast?_eq_some_getLast hstartNe]
      rfl
    have hbound : lastTerm termOf start < t' := hlastTerm ▸ hlt _ (getLast_mem hstartNe)
    have hhistory := hbetween _ (by omega) hbound hlead
    refine prefix_of_prefix_length_le hhistory hstartIn ?_
    by_contra hshort
    -- Otherwise the last entry of the candidate lies inside the prefix.
    have hlastAt : start[start.length - 1]? = some (start.getLast hstartNe) := by
      rw [← getLast?_eq_getElem?, getLast?_eq_some_getLast hstartNe]
    have hprefixAt : ((s.history t).take k)[start.length - 1]? = some (start.getLast hstartNe) := by
      have hhist := getElem?_of_isPrefix hstartIn hlastAt
      rw [← hhist, prefix_iff_eq_take.mp hhistory, getElem?_take_of_lt (by omega)]
    have hle := inv.history_le t _ (mem_of_mem_take (mem_of_getElem? hprefixAt))
    omega
  · -- Both logs end in the same term, and the candidate's is not shorter.
    obtain ⟨-, hvoterIn⟩ := hvoter.history_of_ne_nil hvoterNe
    rw [← hsame] at hvoterIn
    exact hin.trans (prefix_of_prefix_length_le hvoterIn hstartIn hle)

/-- **Leader completeness.**  A certified prefix is part of the history of every later
term that has a leader. -/
theorem Inv.cert_complete (hlt : t < t')
    (hlead : s.leader t' ≠ none) : (s.history t).take k <+: s.history t' := by
  induction t' using Nat.strong_induction_on with
  | _ t' ih =>
    obtain ⟨c, hc'⟩ := Option.ne_none_iff_exists'.mp hlead
    obtain ⟨Q', start, helected⟩ := inv.elected t' c hc'
    obtain ⟨-, -, Q, hQ, hacks⟩ := inv.cert t k hc
    -- A voter that acknowledged the prefix and voted for the later leader.
    obtain ⟨v, hv, hvQ, hvQ'⟩ := hQ.exists_mem_both helected.majority
    obtain ⟨ack, hack, hnode, hackTerm, hkAck⟩ := hacks v hvQ hv
    obtain ⟨vote, hvote, hvoter, hvoteTerm, -, hup⟩ := helected.votes v hvQ' hv
    subst hackTerm hvoteTerm
    have hbetween : ∀ u, ack.term < u → u < vote.term → s.leader u ≠ none →
        (s.history ack.term).take k <+: s.history u := fun u hu hu' => ih u hu' hu
    have hin := inv.vote_retains vote hvote ack hack (hnode.trans hvoter.symm) hlt k hkAck hbetween
    have hstart : Backed termOf s start := (inv.history_backed _).shorten helected.start_le
    exact (inv.upToDate_contains hc hstart helected.start_lt (inv.vote_backed vote hvote)
      hin hup hbetween).trans helected.start_le

/-- The committed prefix of a node is part of the history of every term with a leader
from some term on. -/
theorem Inv.commit_in_history {n : N}
    (hcommit : (s.log n).take (s.commit n) <+: (s.history t).take k) (hle : t ≤ t')
    (hlead : s.leader t' ≠ none) : (s.log n).take (s.commit n) <+: s.history t' := by
  rcases Nat.lt_or_eq_of_le hle with hlt | rfl
  · exact hcommit.trans (inv.cert_complete hc hlt hlead)
  · exact hcommit.trans ( take_prefix _ _)

end

/-- **Agreement.**  Where two nodes have both committed, their logs are equal. -/
theorem Inv.commit_agree {a b : N} {i : Nat}
    (ha : i < s.commit a) (hb : i < s.commit b) : (s.log a)[i]? = (s.log b)[i]? := by
  have hentry : ∀ {n : N} {t : Nat}, i < s.commit n →
      (s.log n).take (s.commit n) <+: s.history t → (s.log n)[i]? = (s.history t)[i]? := by
    intro n t hi hin
    have hlt : i < (s.log n).length := hi.trans_le (inv.commit_le n)
    have hat : ((s.log n).take (s.commit n))[i]? = some ((s.log n)[i]) := by
      rw [getElem?_take_of_lt hi, getElem?_eq_getElem hlt]
    rw [getElem?_of_isPrefix hin hat, getElem?_eq_getElem hlt]
  obtain ⟨t, k, hc, hcommit⟩ := (inv.commit_cert a).resolve_left (by omega)
  obtain ⟨t', k', hc', hcommit'⟩ := (inv.commit_cert b).resolve_left (by omega)
  rcases Nat.le_total t t' with hle | hle
  · have hlead := inv.leader_of_cert hc'
    rw [hentry ha (inv.commit_in_history hc hcommit hle hlead),
      hentry hb (inv.commit_in_history hc' hcommit' le_rfl hlead)]
  · have hlead := inv.leader_of_cert hc
    rw [hentry ha (inv.commit_in_history hc hcommit le_rfl hlead),
      hentry hb (inv.commit_in_history hc' hcommit' hle hlead)]

end

end Completeness

/-! ## Steps -/

section Steps

variable [DecidableEq N] {voters : Finset N} {t k : Nat} {c n : N} {Q : Finset N}

omit [DecidableEq N] in
/-- A retained prefix stays retained when more is asked of the leaders. -/
theorem Retains.mono {bound bound' : Nat} (h : Retains s t bound k l) (hle : bound ≤ bound') :
    Retains s t bound' k l := fun hall =>
  h fun u hu hu' hlead => hall u hu (hu'.trans_le hle) hlead

theorem Elected.mono {s' : State N E} {start : List E} (h : Elected termOf voters s t c Q start)
    (hhist : s'.history t = s.history t) (hvotes : s.votes ⊆ s'.votes) :
    Elected termOf voters s' t c Q start where
  majority := h.majority
  start_le := hhist ▸ h.start_le
  start_lt := h.start_lt
  later := hhist ▸ h.later
  votes v hv hvV := by
    obtain ⟨vote, hvote, hrest⟩ := h.votes v hv hvV
    exact ⟨vote, hvotes hvote, hrest⟩

/-- Nobody has done anything yet. -/
def State.initial (N E : Type) : State N E where
  term _ := 0
  log _ := []
  commit _ := 0
  leader _ := none
  history _ := []
  votes := ∅
  acks := ∅
  certs := ∅

theorem inv_initial : Inv termOf voters (State.initial N E) := by
  constructor <;> simp [State.initial, Backed]

section

variable (inv : Inv termOf voters s)

include inv

theorem Inv.elected_mono {s' : State N E} (hhist : s'.history = s.history)
    (hvotes : s.votes ⊆ s'.votes) :
    ∀ t c, s.leader t = some c → ∃ Q start, Elected termOf voters s' t c Q start := by
  intro t c hc
  obtain ⟨Q, start, h⟩ := inv.elected t c hc
  exact ⟨Q, start, h.mono (congrFun hhist t) hvotes⟩

/-- A node moves to a later term. -/
theorem Inv.raise (ht : s.term n ≤ t) : Inv termOf voters { s with term := update s.term n t } := by
  have hmono : ∀ m, s.term m ≤ update s.term n t m :=
    (forall_update_iff s.term fun m u => s.term m ≤ u).mpr ⟨ht, fun _ _ => le_rfl⟩
  exact { inv with
    log_le := fun m e he => (inv.log_le m e he).trans (hmono m)
    leader_term := by
      intro u c hc
      obtain ⟨hle, hlog⟩ := inv.leader_term u c hc
      refine ⟨hle.trans (hmono c), fun heq => hlog ?_⟩
      exact Nat.le_antisymm (heq ▸ hmono c) hle
    elected := inv.elected_mono rfl subset_rfl
    vote_term := fun vote hvote => (inv.vote_term vote hvote).trans (hmono _)
    ack_term := fun ack hack => (inv.ack_term ack hack).trans (hmono _)
    ack_retains := fun ack hack k hk =>
      (inv.ack_retains ack hack k hk).mono (Nat.succ_le_succ (hmono _)) }

/-- A node votes in its current term, which has no leader yet. -/
theorem Inv.vote (hnone : s.leader (s.term n) = none) :
    Inv termOf voters { s with votes := insert ⟨n, s.term n, c, s.log n⟩ s.votes } :=
  { inv with
    elected := inv.elected_mono rfl (Set.subset_insert _ _)
    vote_term := by
      rintro vote (rfl | hvote)
      · exact le_rfl
      · exact inv.vote_term vote hvote
    vote_backed := by
      rintro vote (rfl | hvote)
      · exact inv.log_backed n
      · exact inv.vote_backed vote hvote
    vote_retains := by
      rintro vote (rfl | hvote) ack hack hnode hlt k hk
      · -- The current term has no leader, so the leaders before it are all there are.
        intro hall
        have hretains := inv.ack_retains ack hack k hk
        rw [hnode] at hretains
        refine hretains fun u hu hu' hlead => ?_
        rcases Nat.lt_succ_iff_lt_or_eq.mp hu' with hlt' | rfl
        · exact hall u hu hlt' hlead
        · exact absurd hnone hlead
      · exact inv.vote_retains vote hvote ack hack hnode hlt k hk }

/-- A node acknowledges a length of its log that agrees with its term's history. -/
theorem Inv.ack {m : Nat} (hlead : s.leader (s.term n) ≠ none)
    (hlen : m ≤ (s.log n).length) (hagree : (s.log n).take m <+: s.history (s.term n)) :
    Inv termOf voters { s with acks := insert ⟨n, s.term n, m⟩ s.acks } := by
  have hm : ((s.log n).take m).length = m := by
    rw [length_take, Nat.min_eq_left hlen]
  exact { inv with
    elected := inv.elected_mono rfl subset_rfl
    vote_retains := by
      rintro vote hvote ack (rfl | hack) hnode hlt k hk
      · have hle := inv.vote_term vote hvote
        simp only at hnode hlt
        rw [← hnode] at hle
        omega
      · exact inv.vote_retains vote hvote ack hack hnode hlt k hk
    ack_leader := by
      rintro ack (rfl | hack)
      · exact hlead
      · exact inv.ack_leader ack hack
    ack_length := by
      rintro ack (rfl | hack)
      · exact hm ▸ hagree.length_le
      · exact inv.ack_length ack hack
    ack_term := by
      rintro ack (rfl | hack)
      · exact le_rfl
      · exact inv.ack_term ack hack
    ack_retains := by
      rintro ack (rfl | hack) k hk
      · intro _
        have heq : (s.history (s.term n)).take m = (s.log n).take m := by
          rw [prefix_iff_eq_take.mp hagree, hm]
        rw [← Nat.min_eq_left hk, ← take_take, heq]
        exact ( take_prefix _ _).trans ( take_prefix _ _)
      · exact inv.ack_retains ack hack k hk
    cert := fun t k hc => by
      obtain ⟨hpos, hentry, Q, hQ, hacks⟩ := inv.cert t k hc
      refine ⟨hpos, hentry, Q, hQ, fun v hv hvV => ?_⟩
      obtain ⟨ack, hack, hrest⟩ := hacks v hv hvV
      exact ⟨ack, Set.mem_insert_of_mem _ hack, hrest⟩ }

/-- A majority has acknowledged a prefix that ends in an entry of the term. -/
theorem Inv.certify (hpos : 0 < k) (he : (s.history t)[k - 1]? = some e)
    (hterm : termOf e = t) (hQ : HasMajority voters Q)
    (hacks : ∀ v ∈ Q, v ∈ voters → ∃ ack ∈ s.acks, ack.node = v ∧ ack.term = t ∧ k ≤ ack.length) :
    Inv termOf voters { s with certs := insert (t, k) s.certs } :=
  { inv with
    elected := inv.elected_mono rfl subset_rfl
    cert := by
      rintro t' k' (heq | hc)
      · cases heq
        exact ⟨hpos, ⟨e, he, hterm⟩, Q, hQ, hacks⟩
      · exact inv.cert t' k' hc
    commit_cert := fun n => (inv.commit_cert n).imp_right fun ⟨t', k', hc, hin⟩ =>
      ⟨t', k', Set.mem_insert_of_mem _ hc, hin⟩ }

/-- A node commits a part of its log that lies inside a certified prefix. -/
theorem Inv.commit {c : Nat} (hlen : c ≤ (s.log n).length)
    (hc : (t, k) ∈ s.certs) (hin : (s.log n).take c <+: (s.history t).take k) :
    Inv termOf voters { s with commit := update s.commit n c } :=
  { inv with
    elected := inv.elected_mono rfl subset_rfl
    commit_le := (forall_update_iff s.commit fun m c => c ≤ (s.log m).length).mpr
      ⟨hlen, fun m _ => inv.commit_le m⟩
    commit_cert := by
      intro m
      by_cases hm : m = n
      · subst hm
        simpa using .inr ⟨t, k, hc, hin⟩
      · simpa [hm] using inv.commit_cert m }

/-- A node takes over a log from the leader of its term: what it keeps is a part of
its own log or of the history, nothing that agreed with the history is lost, and
neither is anything committed. -/
theorem Inv.accept (hlead : s.leader (s.term n) ≠ none)
    (hfrom : l <+: s.log n ∨ l <+: s.history (s.term n))
    (hkeep : ∀ p, p <+: s.log n → p <+: s.history (s.term n) → p <+: l)
    (hcommit : (s.log n).take (s.commit n) <+: l) :
    Inv termOf voters { s with log := update s.log n l } := by
  have hcommitLength : s.commit n ≤ l.length := by
    have := hcommit.length_le
    rwa [length_take, Nat.min_eq_left (inv.commit_le n)] at this
  have hcommitTake : l.take (s.commit n) = (s.log n).take (s.commit n) := by
    have := prefix_iff_eq_take.mp hcommit
    rw [length_take, Nat.min_eq_left (inv.commit_le n)] at this
    exact this.symm
  exact { inv with
    log_backed := by
      refine (forall_update_iff s.log fun _ l => Backed termOf s l).mpr
        ⟨?_, fun m _ => inv.log_backed m⟩
      rcases hfrom with hfrom | hfrom
      · exact (inv.log_backed n).shorten hfrom
      · exact (inv.history_backed _).shorten hfrom
    log_le := by
      refine (forall_update_iff s.log fun m l => ∀ e ∈ l, termOf e ≤ s.term m).mpr
        ⟨fun e he => ?_, fun m _ => inv.log_le m⟩
      rcases hfrom with hfrom | hfrom
      · exact inv.log_le n e (hfrom.subset he)
      · exact inv.history_le _ e (hfrom.subset he)
    leader_term := by
      intro u c hc
      obtain ⟨hle, hlog⟩ := inv.leader_term u c hc
      refine ⟨hle, fun heq => ?_⟩
      by_cases hcn : c = n
      · subst hcn
        have hsame := hlog heq
        rw [heq, ← hsame] at hfrom hkeep
        simp only [update_self]
        rw [← hsame]
        refine IsPrefix.eq_of_length_le (hfrom.elim id id) ?_
        exact (hkeep _ (prefix_refl _) (prefix_refl _)).length_le
      · simp only [update_of_ne hcn]
        exact hlog heq
    elected := inv.elected_mono rfl subset_rfl
    ack_retains := by
      intro ack hack k hk hall
      have hold := inv.ack_retains ack hack k hk hall
      by_cases hn : ack.node = n
      · subst hn
        simp only [update_self]
        refine hkeep _ hold ?_
        rcases Nat.lt_or_eq_of_le (inv.ack_term ack hack) with hlt | heq
        · exact hall _ hlt (Nat.lt_succ_self _) hlead
        · rw [← heq]
          exact take_prefix _ _
      · simp only [update_of_ne hn]
        exact hold
    commit_le := (forall_update_iff s.log fun m l => s.commit m ≤ l.length).mpr
      ⟨hcommitLength, fun m _ => inv.commit_le m⟩
    commit_cert := by
      intro m
      by_cases hm : m = n
      · subst hm
        simpa [hcommitTake] using inv.commit_cert m
      · simpa [hm] using inv.commit_cert m }

end

/-- Histories only grow, by entries of their own term, and leaders stay. -/
structure Extends (termOf : E → Nat) (s s' : State N E) : Prop where
  leader : ∀ u, s.leader u ≠ none → s'.leader u = s.leader u
  history : ∀ u, s.leader u ≠ none → s.history u <+: s'.history u
  added : ∀ u, s.leader u ≠ none → ∀ k e, (s'.history u)[k]? = some e →
    (s.history u).length ≤ k → termOf e = u

section Extension

variable {s' : State N E} {u : Nat}

omit [DecidableEq N] in
theorem Backed.extend (h : Backed termOf s l) (hs : Extends termOf s s') : Backed termOf s' l := by
  intro k e he
  obtain ⟨hlead, hin⟩ := h k e he
  exact ⟨hs.leader _ hlead ▸ hlead, hin.trans (hs.history _ hlead)⟩

omit [DecidableEq N] in
theorem Extends.take_eq (hs : Extends termOf s s') {k : Nat} (hu : s.leader u ≠ none)
    (hk : k ≤ (s.history u).length) : (s'.history u).take k = (s.history u).take k := by
  rw [prefix_iff_eq_take.mp (hs.history u hu), take_take, Nat.min_eq_left hk]

theorem Retains.extend (inv : Inv termOf voters s) (hs : Extends termOf s s') {bound : Nat}
    (hu : s.leader u ≠ none) (hk : k ≤ (s.history u).length) (hl : l <+: l')
    (h : Retains s u bound k l) : Retains s' u bound k l' := by
  intro hall
  rw [hs.take_eq hu hk] at hall ⊢
  refine (h fun w hw hw' hlead => ?_).trans hl
  have hin := hall w hw hw' (hs.leader w hlead ▸ hlead)
  -- The prefix cannot reach into what the later term added: its entries are older.
  refine prefix_of_prefix_length_le hin (hs.history w hlead) ?_
  by_contra hlong
  have hpos : (s.history w).length < ((s.history u).take k).length := not_le.mp hlong
  have hat := getElem?_eq_getElem hpos
  have hterm := hs.added w hlead _ _ (getElem?_of_isPrefix hin hat) le_rfl
  have hle := inv.history_le u _ (mem_of_mem_take (getElem_mem hpos))
  omega

/-- What a growth of the histories has to establish anew. -/
theorem Inv.extend (inv : Inv termOf voters s) (hs : Extends termOf s s') (hterm : s'.term = s.term)
    (hcommit : s'.commit = s.commit) (hvotes : s'.votes = s.votes) (hacks : s'.acks = s.acks)
    (hcerts : s'.certs = s.certs) (hlog : ∀ n, s.log n <+: s'.log n)
    (history_none : ∀ t, s'.leader t = none → s'.history t = [])
    (history_backed : ∀ t, Backed termOf s' (s'.history t))
    (history_le : ∀ t, ∀ e ∈ s'.history t, termOf e ≤ t)
    (log_backed : ∀ n, Backed termOf s' (s'.log n))
    (log_le : ∀ n, ∀ e ∈ s'.log n, termOf e ≤ s'.term n)
    (leader_term : ∀ t c, s'.leader t = some c → t ≤ s'.term c ∧
      (s'.term c = t → s'.log c = s'.history t))
    (elected : ∀ t c, s.leader t = none → s'.leader t = some c →
      ∃ Q start, Elected termOf voters s' t c Q start) :
    Inv termOf voters s' where
  history_none := history_none
  history_backed := history_backed
  history_le := history_le
  log_backed := log_backed
  log_le := log_le
  leader_term := leader_term
  elected t c hc := by
    by_cases hnone : s.leader t = none
    · exact elected t c hnone hc
    · rw [hs.leader t hnone] at hc
      obtain ⟨Q, start, h⟩ := inv.elected t c hc
      refine ⟨Q, start, h.majority, h.start_le.trans (hs.history t hnone), h.start_lt, ?_, ?_⟩
      · intro k e he hk
        by_cases hold : (s.history t).length ≤ k
        · exact hs.added t hnone k e he hold
        · have hlt : k < (s.history t).length := not_le.mp hold
          have hat := getElem?_eq_getElem hlt
          have hsame := getElem?_of_isPrefix (hs.history t hnone) hat
          rw [he] at hsame
          exact h.later k e (hsame ▸ hat) hk
      · rw [hvotes]
        exact h.votes
  vote_term := by
    rw [hvotes, hterm]
    exact inv.vote_term
  vote_backed vote hvote := (inv.vote_backed vote (hvotes ▸ hvote)).extend hs
  vote_retains vote hvote ack hack hnode hlt k hk := by
    rw [hacks] at hack
    exact Retains.extend inv hs (inv.ack_leader ack hack)
      (hk.trans (inv.ack_length ack hack)) (prefix_refl _)
      (inv.vote_retains vote (hvotes ▸ hvote) ack hack hnode hlt k hk)
  ack_leader ack hack := by
    rw [hacks] at hack
    have hlead := inv.ack_leader ack hack
    exact hs.leader _ hlead ▸ hlead
  ack_length ack hack := by
    rw [hacks] at hack
    exact (inv.ack_length ack hack).trans (hs.history _ (inv.ack_leader ack hack)).length_le
  ack_term := by
    rw [hacks, hterm]
    exact inv.ack_term
  ack_retains ack hack k hk := by
    rw [hacks] at hack
    rw [hterm]
    exact Retains.extend inv hs (inv.ack_leader ack hack)
      (hk.trans (inv.ack_length ack hack)) (hlog _) (inv.ack_retains ack hack k hk)
  cert t k hc := by
    rw [hcerts] at hc
    obtain ⟨hpos, ⟨e, he, hterm⟩, hQ⟩ := inv.cert t k hc
    rw [hacks]
    exact ⟨hpos, ⟨e, getElem?_of_isPrefix (hs.history t (inv.leader_of_cert hc)) he, hterm⟩, hQ⟩
  commit_le n := by
    rw [hcommit]
    exact (inv.commit_le n).trans (hlog n).length_le
  commit_cert n := by
    rw [hcommit, hcerts]
    refine (inv.commit_cert n).imp_right fun ⟨t, k, hc, hin⟩ => ⟨t, k, hc, ?_⟩
    obtain ⟨-, ⟨e, he, -⟩, -⟩ := inv.cert t k hc
    have hk : k ≤ (s.history t).length := by
      have := (List.getElem?_eq_some_iff.mp he).1
      omega
    have htake : (s'.log n).take (s.commit n) = (s.log n).take (s.commit n) := by
      rw [prefix_iff_eq_take.mp (hlog n), take_take, Nat.min_eq_left (inv.commit_le n)]
    rw [htake, hs.take_eq (inv.leader_of_cert hc) hk]
    exact hin

end Extension

/-- A candidate with a majority of votes becomes the leader of its term. -/
theorem Inv.elect (inv : Inv termOf voters s) (hnone : s.leader (s.term c) = none)
    (hlt : ∀ e ∈ s.log c, termOf e < s.term c) (hQ : HasMajority voters Q)
    (hvotes : ∀ v ∈ Q, v ∈ voters →
      ∃ vote ∈ s.votes, vote.voter = v ∧ vote.term = s.term c ∧ vote.candidate = c ∧
      UpToDate termOf (s.log c) vote.log) :
    Inv termOf voters { s with
      leader := update s.leader (s.term c) (some c)
      history := update s.history (s.term c) (s.log c) } := by
  have hne : ∀ u, s.leader u ≠ none → u ≠ s.term c := by
    rintro u hu rfl
    exact hu hnone
  have hs : Extends termOf s { s with
      leader := update s.leader (s.term c) (some c)
      history := update s.history (s.term c) (s.log c) } := by
    refine ⟨fun u hu => ?_, fun u hu => ?_, fun u hu k e he hk => ?_⟩
    · simp [hne u hu]
    · simp [hne u hu]
    · simp only [update_of_ne (hne u hu)] at he
      have := (List.getElem?_eq_some_iff.mp he).1
      omega
  refine inv.extend hs rfl rfl rfl rfl rfl (fun n => prefix_refl _) ?_ ?_ ?_
    (fun n => (inv.log_backed n).extend hs) inv.log_le ?_ ?_
  · intro t ht
    by_cases htc : t = s.term c
    · simp [htc] at ht
    · simp only [update_of_ne htc] at ht ⊢
      exact inv.history_none t ht
  · exact (forall_update_iff s.history fun _ l => Backed termOf _ l).mpr
      ⟨(inv.log_backed c).extend hs, fun t _ => (inv.history_backed t).extend hs⟩
  · exact (forall_update_iff s.history fun t l => ∀ e ∈ l, termOf e ≤ t).mpr
      ⟨fun e he => (hlt e he).le, fun t _ => inv.history_le t⟩
  · intro t d hd
    by_cases htc : t = s.term c
    · rw [htc] at hd ⊢
      simp only [update_self, Option.some.injEq] at hd ⊢
      subst hd
      exact ⟨le_rfl, fun _ => rfl⟩
    · simp only [update_of_ne htc] at hd ⊢
      exact inv.leader_term t d hd
  · intro t d ht hd
    by_cases htc : t = s.term c
    · subst htc
      simp only [update_self, Option.some.injEq] at hd
      subst hd
      refine ⟨Q, s.log c, hQ, ?_, hlt, ?_, hvotes⟩
      · simp
      · intro k e he hk
        simp only [update_self] at he
        have := (List.getElem?_eq_some_iff.mp he).1
        omega
    · simp only [update_of_ne htc] at hd
      rw [ht] at hd
      cases hd

/-- The leader of the current term of `c` is `c`, which appends an entry of that term. -/
theorem Inv.append (inv : Inv termOf voters s) (hlead : s.leader (s.term c) = some c)
    (hterm : termOf e = s.term c) : Inv termOf voters { s with
      log := update s.log c (s.log c ++ [e])
      history := update s.history (s.term c) (s.log c ++ [e]) } := by
  have hsame : s.log c = s.history (s.term c) := (inv.leader_term _ c hlead).2 rfl
  have hgrow : ∀ n, s.log n <+: update s.log c (s.log c ++ [e]) n :=
    (forall_update_iff s.log fun n l => s.log n <+: l).mpr
      ⟨prefix_append _ _, fun _ _ => prefix_rfl⟩
  have hs : Extends termOf s { s with
      log := update s.log c (s.log c ++ [e])
      history := update s.history (s.term c) (s.log c ++ [e]) } := by
    refine ⟨fun _ _ => rfl, fun u _ => ?_, fun u _ k e' he' hk => ?_⟩
    · by_cases hu : u = s.term c
      · simp [hu, hsame]
      · simp [hu]
    · by_cases hu : u = s.term c
      · subst hu
        simp only [update_self] at he'
        rw [← hsame] at hk
        rw [getElem?_append_right hk, getElem?_singleton] at he'
        split at he'
        · cases he'
          exact hterm
        · cases he'
      · simp only [update_of_ne hu] at he'
        have := (List.getElem?_eq_some_iff.mp he').1
        omega
  -- The grown log is the grown history, and every entry of it is backed.
  have hbacked : Backed termOf { s with
      log := update s.log c (s.log c ++ [e])
      history := update s.history (s.term c) (s.log c ++ [e]) } (s.log c ++ [e]) := by
    intro k e' he'
    by_cases hk : k < (s.log c).length
    · rw [getElem?_append_left hk] at he'
      rw [take_append_of_le_length hk]
      exact (inv.log_backed c).extend hs k e' he'
    · rw [getElem?_append_right (not_lt.mp hk), getElem?_singleton] at he'
      split at he'
      · cases he'
        rw [hterm]
        simp only [update_self]
        exact ⟨by simp [hlead], take_prefix _ _⟩
      · cases he'
  have hle : ∀ e' ∈ s.log c ++ [e], termOf e' ≤ s.term c := by
    intro e' he'
    rcases mem_append.mp he' with he' | he'
    · exact inv.log_le c e' he'
    · rw [mem_singleton.mp he']
      exact hterm.le
  refine inv.extend hs rfl rfl rfl rfl rfl hgrow ?_ ?_ ?_ ?_ ?_ ?_ ?_
  · intro t ht
    have htc : t ≠ s.term c := by
      rintro rfl
      simp [hlead] at ht
    simp only [update_of_ne htc]
    exact inv.history_none t ht
  · exact (forall_update_iff s.history fun _ l => Backed termOf _ l).mpr
      ⟨hbacked, fun t _ => (inv.history_backed t).extend hs⟩
  · exact (forall_update_iff s.history fun t l => ∀ e ∈ l, termOf e ≤ t).mpr
      ⟨hle, fun t _ => inv.history_le t⟩
  · exact (forall_update_iff s.log fun _ l => Backed termOf _ l).mpr
      ⟨hbacked, fun n _ => (inv.log_backed n).extend hs⟩
  · exact (forall_update_iff s.log fun n l => ∀ e ∈ l, termOf e ≤ s.term n).mpr
      ⟨hle, fun n _ => inv.log_le n⟩
  · intro t d hd
    obtain ⟨hterm', hlog⟩ := inv.leader_term t d hd
    refine ⟨hterm', fun heq => ?_⟩
    by_cases hdc : d = c
    · subst hdc
      subst heq
      simp
    · have htc : t ≠ s.term c := by
        rintro rfl
        rw [hlead] at hd
        exact hdc (Option.some.inj hd).symm
      simp only [update_of_ne hdc, update_of_ne htc]
      exact hlog heq
  · intro t d ht hd
    rw [show s.leader t = some d from hd] at ht
    cases ht

end Steps

end Neo4r.Foundation.ReplicatedLog
