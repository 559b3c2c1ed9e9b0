/-
  `Foundation.Framing`: byte streams of records with a length before each.

  A record is written as its length, four bytes with the most significant first, and its
  payload.  A reader takes records until the bytes end.  Whole records are read back; if the
  bytes end inside a record the reader fails, whatever stood before it.
-/
import Neo4r.Foundation.Fallible

set_option autoImplicit false

namespace Neo4r.Foundation

open List

abbrev Bytes := List UInt8

namespace Framing

/-! ## Numbers -/

/-- A number in a fixed number of bytes, the most significant first. -/
def beBytes : Nat → Nat → Bytes
  | 0, _ => []
  | width + 1, n => UInt8.ofNat (n / 256 ^ width) :: beBytes width n

/-- The number that bytes stand for. -/
def fromBeBytes (bytes : Bytes) : Nat := bytes.foldl (fun n byte => n * 256 + byte.toNat) 0

@[simp] theorem length_beBytes (width n : Nat) : (beBytes width n).length = width := by
  induction width with
  | zero => rfl
  | succ width ih => rw [beBytes, length_cons, ih]

theorem foldl_beBytes (width n start : Nat) :
    (beBytes width n).foldl (fun n byte => n * 256 + byte.toNat) start =
      start * 256 ^ width + n % 256 ^ width := by
  induction width generalizing start with
  | zero => simp [beBytes, Nat.mod_one]
  | succ width ih =>
    have hsplit : n % 256 ^ (width + 1) =
        n % 256 ^ width + 256 ^ width * (n / 256 ^ width % 256) := by
      rw [Nat.pow_succ, Nat.mod_mul]
    rw [beBytes, foldl_cons, ih, UInt8.toNat_ofNat', hsplit]
    ring

theorem fromBeBytes_beBytes {width n : Nat} (h : n < 256 ^ width) :
    fromBeBytes (beBytes width n) = n := by
  rw [fromBeBytes, foldl_beBytes, Nat.zero_mul, Nat.zero_add, Nat.mod_eq_of_lt h]

variable (bytes : Bytes)

theorem foldl_bytes (start : Nat) : bytes.foldl (fun n byte => n * 256 + byte.toNat) start =
      start * 256 ^ bytes.length + fromBeBytes bytes := by
  induction bytes generalizing start with
  | nil => simp [fromBeBytes]
  | cons byte bytes ih =>
    rw [fromBeBytes, foldl_cons, foldl_cons, ih, ih, length_cons, Nat.pow_succ]
    ring

theorem fromBeBytes_lt : fromBeBytes bytes < 256 ^ bytes.length := by
  induction bytes with
  | nil => decide
  | cons byte =>
    rw [fromBeBytes, foldl_cons, foldl_bytes, length_cons, Nat.pow_succ, Nat.zero_mul, Nat.zero_add]
    have hbyte := byte.toNat_lt
    nlinarith

/-- Only these bytes stand for the number. -/
theorem beBytes_fromBeBytes : beBytes bytes.length (fromBeBytes bytes) = bytes := by
  have hmod : ∀ width n start : Nat, beBytes width (start * 256 ^ width + n) = beBytes width n := by
    intro width
    induction width with
    | zero => exact fun _ _ => rfl
    | succ width ih =>
      intro n start
      have hpos : 0 < 256 ^ width := by positivity
      have hpow : start * 256 ^ (width + 1) + n = start * 256 * 256 ^ width + n := by
        ring
      rw [hpow, beBytes, beBytes, ih]
      refine congrArg (· :: beBytes width n) (UInt8.toNat_inj.mp ?_)
      rw [UInt8.toNat_ofNat', UInt8.toNat_ofNat', Nat.mul_comm (start * 256),
        Nat.mul_add_div hpos, Nat.mul_comm start, Nat.mul_add_mod]
  induction bytes with
  | nil => rfl
  | cons byte bytes ih =>
    have hsplit : fromBeBytes (byte :: bytes) =
        byte.toNat * 256 ^ bytes.length + fromBeBytes bytes := by
      rw [fromBeBytes, foldl_cons, foldl_bytes, Nat.zero_mul, Nat.zero_add]
    rw [length_cons, beBytes, hsplit, hmod, ih]
    refine congrArg (· :: bytes) (UInt8.toNat_inj.mp ?_)
    rw [UInt8.toNat_ofNat', Nat.mul_comm, Nat.mul_add_div (by positivity),
      Nat.div_eq_of_lt (fromBeBytes_lt bytes), Nat.add_zero, Nat.mod_eq_of_lt byte.toNat_lt]

/-! ## Records -/

/-- A record as it is written. -/
def frame (payload : Bytes) : Bytes := beBytes 4 payload.length ++ payload

@[simp] theorem length_frame (payload : Bytes) : (frame payload).length = 4 + payload.length := by
  rw [frame, length_append, length_beBytes]

/-- Where the bytes end inside a record. -/
inductive Torn
  | length
  | payload
  deriving DecidableEq, Repr

/-- The first record and the bytes after it. -/
def readFrame (bytes : Bytes) : Except Torn (Option (Bytes × Bytes)) :=
  if bytes.length = 0 then .ok none
  else if bytes.length < 4 then .error .length
  else if (bytes.drop 4).length < fromBeBytes (bytes.take 4) then .error .payload
  else .ok (some ((bytes.drop 4).take (fromBeBytes (bytes.take 4)),
    (bytes.drop 4).drop (fromBeBytes (bytes.take 4))))

variable {bytes payload rest : Bytes}

section

variable (h : readFrame bytes = .ok (some (payload, rest)))

include h

theorem length_of_readFrame : rest.length < bytes.length := by
  rw [readFrame] at h
  split at h
  · cases h
  · split at h
    · cases h
    · split at h
      · cases h
      · cases h
        rw [length_drop, length_drop]
        omega

/-- The bytes that a record was read from. -/
theorem eq_of_readFrame :
    bytes = bytes.take 4 ++ payload ++ rest ∧ payload.length = fromBeBytes (bytes.take 4) ∧
      4 ≤ bytes.length := by
  rw [readFrame] at h
  split at h
  · cases h
  · split at h
    · cases h
    · split at h
      · cases h
      · cases h
        refine ⟨?_, ?_, by omega⟩
        · rw [append_assoc, take_append_drop, take_append_drop]
        · rw [length_take]
          omega

end

variable {ε α : Type}

/-- Records are read and decoded until the bytes end. -/
def readAll (decode : Bytes → Except ε α) (torn : Torn → ε) (bytes : Bytes) : Except ε (List α) :=
  match _hread : readFrame bytes with
  | .error place => .error (torn place)
  | .ok none => .ok []
  | .ok (some (payload, rest)) => do
      let a ← decode payload
      let l ← readAll decode torn rest
      pure (a :: l)
termination_by bytes.length
decreasing_by exact length_of_readFrame _hread

variable {decode : Bytes → Except ε α} {torn : Torn → ε} {payload rest : Bytes}

theorem readFrame_append (h : payload.length < 2 ^ 32) :
    readFrame (frame payload ++ rest) = .ok (some (payload, rest)) := by
  have htake : (frame payload ++ rest).take 4 = beBytes 4 payload.length := by
    rw [frame, append_assoc, take_left' (length_beBytes _ _)]
  have hdrop : (frame payload ++ rest).drop 4 = payload ++ rest := by
    rw [frame, append_assoc, drop_left' (length_beBytes _ _)]
  have hlen : (frame payload ++ rest).length = 4 + payload.length + rest.length := by
    rw [length_append, length_frame]
  rw [readFrame, if_neg (by omega), if_neg (by omega), htake, hdrop, fromBeBytes_beBytes h,
    if_neg (by rw [length_append]; omega), take_left, drop_left]

@[simp] theorem readAll_nil : readAll decode torn [] = .ok [] := by
  rw [readAll]
  rfl

/-- A whole record is read before the rest. -/
theorem readAll_append (h : payload.length < 2 ^ 32) :
    readAll decode torn (frame payload ++ rest) = (do
      let a ← decode payload
      let l ← readAll decode torn rest
      pure (a :: l)) := by
  rw [readAll, readFrame_append h]

/-- **A record that ends early** is not read. -/
theorem readAll_take {count : Nat} (h : payload.length < 2 ^ 32) (hpos : 0 < count)
    (hcut : count < (frame payload).length) :
    ∃ place, readAll decode torn ((frame payload).take count) = .error (torn place) := by
  rw [length_frame] at hcut
  have hlen : ((frame payload).take count).length = count := by
    rw [length_take, length_frame]
    omega
  have htorn : ∃ place, readFrame ((frame payload).take count) = .error place := by
    rw [readFrame, if_neg (by omega)]
    by_cases hshort : count < 4
    · exact ⟨_, if_pos (by omega)⟩
    · have htake : ((frame payload).take count).take 4 = beBytes 4 payload.length := by
        rw [take_take, Nat.min_eq_left (by omega), frame, take_left' (length_beBytes _ _)]
      rw [if_neg (by omega), htake, fromBeBytes_beBytes h, length_drop, if_pos (by omega)]
      exact ⟨_, rfl⟩
  obtain ⟨place, hplace⟩ := htorn
  exact ⟨place, by rw [readAll, hplace]⟩

/-- The bytes of several records. -/
def frames (payloads : List Bytes) : Bytes := payloads.flatMap frame

/-- The records before are read first. -/
theorem readAll_frames_append {payloads : List Bytes}
    (h : ∀ payload ∈ payloads, payload.length < 2 ^ 32) :
    readAll decode torn (frames payloads ++ rest) = (do
      let l ← payloads.mapM decode
      let l' ← readAll decode torn rest
      pure (l ++ l')) := by
  induction payloads with
  | nil =>
    simp [frames]
  | cons payload payloads ih =>
    rw [forall_mem_cons] at h
    have hcons : frames (payload :: payloads) ++ rest =
        frame payload ++ (frames payloads ++ rest) := by
      rw [frames, flatMap_cons, append_assoc]
      rfl
    rw [hcons, readAll_append h.1, ih h.2, mapM_cons]
    simp [bind_assoc]

/-- **What is read without an error** are whole records. -/
theorem frames_of_readAll {l : List α} (h : readAll decode torn bytes = .ok l) :
    ∃ payloads : List Bytes, (∀ payload ∈ payloads, payload.length < 2 ^ 32) ∧
      bytes = frames payloads ∧ payloads.mapM decode = .ok l := by
  induction hlength : bytes.length using Nat.strong_induction_on generalizing bytes l with
  | h length ih =>
    subst hlength
    rw [readAll] at h
    split at h
    · cases h
    · next hread =>
      cases h
      refine ⟨[], forall_mem_nil _, ?_, rfl⟩
      rw [readFrame] at hread
      split at hread
      · next hempty => exact length_eq_zero_iff.mp hempty
      · split at hread
        · cases hread
        · split at hread <;> cases hread
    · next payload rest hread =>
      obtain ⟨a, ha, hrest⟩ := of_exceptBind_ok h
      obtain ⟨l', hl', hpure⟩ := of_exceptBind_ok hrest
      cases hpure
      obtain ⟨payloads, hsmall, hbytes, hdecoded⟩ :=
        ih rest.length (length_of_readFrame hread) hl' rfl
      obtain ⟨heq, hlen, hfour⟩ := eq_of_readFrame hread
      have htake : (bytes.take 4).length = 4 := by
        rw [length_take]
        omega
      have hinverse := beBytes_fromBeBytes (bytes.take 4)
      have hbound := fromBeBytes_lt (bytes.take 4)
      rw [htake] at hinverse hbound
      refine ⟨payload :: payloads, ?_, ?_, ?_⟩
      · exact forall_mem_cons.mpr ⟨hlen ▸ hbound, hsmall⟩
      · rw [frames, flatMap_cons, frame, hlen, hinverse, ← frames, ← hbytes]
        exact heq
      · rw [mapM_cons, ha, hdecoded]
        rfl

end Framing

end Neo4r.Foundation
