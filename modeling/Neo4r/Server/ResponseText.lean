/-
  `Server.ResponseText`: a text in a response line
  (`neo4r-server/src/protocol/row_codec.rs`, `neo4r-protocol/src/lib.rs`).

  The server escapes backslashes and tabs, the client reads escaped backslashes and line
  breaks.  A text without a tab comes back, and one with a tab never does.
-/
import Mathlib

set_option autoImplicit false

namespace Neo4r.Server

open List

/-- `str::replace`, of a character. -/
def replaceChar (replaced : Char) (text input : List Char) : List Char :=
  input.flatMap fun ch => if ch = replaced then text else [ch]

/-- `escape_response` of the server. -/
def escapeResponse (value : List Char) : List Char :=
  replaceChar '\t' ['\\', 't'] (replaceChar '\\' ['\\', '\\'] value)

/-- `unescape_response` of the client, from where the flag `escaped` is as given. -/
def unescapeResponse (escaped : Bool) : List Char → List Char
  | [] => if escaped then ['\\'] else []
  | ch :: input =>
    if escaped then
      (if ch = 'n' then ['\n'] else if ch = '\\' then ['\\'] else ['\\', ch]) ++
        unescapeResponse false input
    else if ch = '\\' then unescapeResponse true input
    else ch :: unescapeResponse false input

/-- `str::splitn`, at tabs. -/
def splitn : Nat → List Char → List (List Char)
  | 0, _ => []
  | 1, input => [input]
  | n + 2, input =>
    match input.dropWhile (· ≠ '\t') with
    | [] => [input]
    | _ :: rest => input.takeWhile (· ≠ '\t') :: splitn (n + 1) rest

/-- `response_field`. -/
def responseField (payload expectedKind : List Char) : Except (List Char) (List Char) :=
  match splitn 3 payload with
  | [status, kind, field] =>
    if status = ['O', 'K'] ∧ kind = expectedKind then .ok (unescapeResponse false field)
    else .error ("expected ".toList ++ expectedKind ++ " response, got: ".toList ++ payload)
  | _ => .error ("expected ".toList ++ expectedKind ++ " response, got: ".toList ++ payload)

/-- The line of the server for a text. -/
def formatResponse (kind value : List Char) : List Char :=
  ['O', 'K'] ++ '\t' :: (kind ++ '\t' :: escapeResponse value)

variable {kind : List Char}

/-- What a character is escaped as. -/
def escapeChar (ch : Char) : List Char :=
  if ch = '\\' then ['\\', '\\'] else if ch = '\t' then ['\\', 't'] else [ch]

theorem escapeResponse_eq (value : List Char) :
    escapeResponse value = value.flatMap escapeChar := by
  rw [escapeResponse, replaceChar, replaceChar, flatMap_assoc]
  refine flatMap_congr fun ch _ => ?_
  by_cases hch : ch = '\\' <;> simp [escapeChar, hch]

/-- The client undoes the escapes but those of tabs. -/
theorem unescapeResponse_escapeResponse (value : List Char) :
    unescapeResponse false (escapeResponse value) = replaceChar '\t' ['\\', 't'] value := by
  rw [escapeResponse_eq]
  induction value with
  | nil => rfl
  | cons ch value ih =>
    rw [replaceChar, flatMap_cons, flatMap_cons, ← replaceChar, ← ih, escapeChar]
    by_cases hslash : ch = '\\'
    · simp [hslash, unescapeResponse]
    · by_cases htab : ch = '\t' <;> simp [hslash, htab, unescapeResponse]

theorem replaceChar_tab_eq_iff (value : List Char) :
    replaceChar '\t' ['\\', 't'] value = value ↔ '\t' ∉ value := by
  induction value with
  | nil => simp [replaceChar]
  | cons ch value ih =>
    rw [replaceChar, flatMap_cons, ← replaceChar]
    by_cases htab : ch = '\t'
    · simp [htab]
    · simp [htab, Ne.symm htab, ih]

/-- The escapes of the characters can be told apart, whatever follows. -/
theorem escapeChar_append {ch ch' : Char} {rest rest' : List Char}
    (h : escapeChar ch ++ rest = escapeChar ch' ++ rest') : ch = ch' ∧ rest = rest' := by
  rw [escapeChar, escapeChar] at h
  split_ifs at h <;> grind

theorem escapeChar_ne_nil (ch : Char) : escapeChar ch ≠ [] := by
  rw [escapeChar]
  split_ifs <;> simp

theorem escapeResponse_injective : Function.Injective escapeResponse := by
  intro value value' h
  rw [escapeResponse_eq, escapeResponse_eq] at h
  induction value generalizing value' with
  | nil => cases value' <;> simp_all [escapeChar_ne_nil]
  | cons ch value ih =>
    cases value' with
    | nil => simp [escapeChar_ne_nil] at h
    | cons =>
      obtain ⟨rfl, hrest⟩ := escapeChar_append h
      rw [ih hrest]

theorem splitn_append (n : Nat) {part : List Char} (hpart : '\t' ∉ part) (rest : List Char) :
    splitn (n + 2) (part ++ '\t' :: rest) = part :: splitn (n + 1) rest := by
  have hall : ∀ ch ∈ part, decide (ch ≠ '\t') = true := fun ch hch =>
    decide_eq_true fun heq => hpart (heq ▸ hch)
  rw [splitn, dropWhile_append_of_pos hall, takeWhile_append_of_pos hall]
  simp

/-- **A text comes back exactly if it has no tab**, and no other has the same escaped form. -/
theorem responseField_formatResponse_iff (hkind : '\t' ∉ kind) (value : List Char) :
    (responseField (formatResponse kind value) kind = .ok value ↔ '\t' ∉ value) ∧
      ∀ value', escapeResponse value' = escapeResponse value → value' = value := by
  refine ⟨?_, fun value' h => escapeResponse_injective h⟩
  rw [responseField, formatResponse, splitn_append 1 (by decide), splitn_append 0 hkind, splitn]
  simp [unescapeResponse_escapeResponse, replaceChar_tab_eq_iff]

theorem responseField_profile :
    responseField (formatResponse ['P'] ['a', '\\', '\n']) ['P'] = .ok ['a', '\\', '\n'] :=
  (responseField_formatResponse_iff (by decide) _).1.mpr (by decide)

/-- A tab comes back as a backslash and a letter. -/
theorem responseField_tab :
    responseField (formatResponse ['P'] ['\t']) ['P'] = .ok ['\\', 't'] := by
  decide +kernel

end Neo4r.Server
