/-
  `Foundation.Word`: unsigned 64-bit quantities and their text form.

  Indexes, terms and server ids of the program are `u64`.  They are natural numbers
  here; where the program saturates, so do these functions.  The second half is the
  decimal text of such a number and the line splitting a text file is read with.
-/
import Mathlib

set_option autoImplicit false

namespace Neo4r.Foundation

/-! ## Saturating arithmetic -/

/-- The largest 64-bit value. -/
def u64Max : Nat := 2 ^ 64 - 1

/-- Addition that stops at the largest 64-bit value. -/
def saturatingAdd (a b : Nat) : Nat := min (a + b) u64Max

/-- Below the bound, the saturating successor is the successor. -/
theorem saturatingAdd_one_of_lt {a : Nat} (h : a < u64Max) : saturatingAdd a 1 = a + 1 :=
  Nat.min_eq_left h

/-- The saturating successor never exceeds the successor. -/
theorem saturatingAdd_one_le (a : Nat) : saturatingAdd a 1 ≤ a + 1 := Nat.min_le_left _ _

/-! ## Decimal text -/

/-- The decimal digits of a number, most significant first. -/
def decimal (n : Nat) : List Char := Nat.toDigits 10 n

/-- Reads an unsigned 64-bit number: an optional plus sign, then one or more digits
whose value does not exceed the bound. -/
def parseU64 (text : List Char) : Option Nat :=
  let digits := match text with
    | '+' :: rest => rest
    | _ => text
  if digits = [] then none
  else if digits.all Char.isDigit then
    let n := Nat.ofDigitChars 10 digits 0
    if n ≤ u64Max then some n else none
  else none

variable {n : Nat} {c : Char} {front : List Char}

theorem isDigit_of_mem_decimal (hc : c ∈ decimal n) : c.isDigit :=
  Nat.isDigit_of_mem_toDigits (by decide) (by decide) hc

theorem decimal_ne_nil (n : Nat) : decimal n ≠ [] := Nat.toDigits_ne_nil

/-- A decimal text starts with a digit, so in particular not with a sign. -/
theorem decimal_ne_cons {rest : List Char} (hc : c.isDigit = false) : decimal n ≠ c :: rest := by
  intro h
  have hdigit : c.isDigit = true := isDigit_of_mem_decimal (n := n) (by simp [h])
  simp [hc] at hdigit

/-- Reading back a printed number succeeds exactly below the bound. -/
theorem parseU64_decimal (n : Nat) :
    parseU64 (decimal n) = if n ≤ u64Max then some n else none := by
  have hsign : (match decimal n with
      | '+' :: rest => rest
      | _ => decimal n) = decimal n := by
    split
    · rename_i rest h
      exact absurd h (decimal_ne_cons (by decide))
    · rfl
  have hall : (decimal n).all Char.isDigit = true :=
    List.all_eq_true.mpr fun _ hc => isDigit_of_mem_decimal hc
  have hvalue : Nat.ofDigitChars 10 (decimal n) 0 = n := Nat.ofDigitChars_ten_toDigits
  simp only [parseU64, hsign, if_neg (decimal_ne_nil n), hall, hvalue, if_true]

/-! ## Lines -/

/-- Drops one carriage return from the front of a reversed line. -/
def dropCarriage : List Char → List Char
  | '\r' :: line => line
  | line => line

/-- Splits the rest of a text after the reversed beginning `line` of its first line. -/
def linesFrom (line : List Char) : List Char → List (List Char)
  | [] => if line = [] then [] else [line.reverse]
  | c :: rest =>
    if c = '\n' then (dropCarriage line).reverse :: linesFrom [] rest
    else linesFrom (c :: line) rest

/-- The lines of a text: it is cut at line feeds, a carriage return before a line
feed belongs to the line end, and nothing follows a final line feed. -/
def lines (text : List Char) : List (List Char) := linesFrom [] text

theorem linesFrom_append {line : List Char} (hfront : '\n' ∉ front) (rest : List Char) :
    linesFrom line (front ++ rest) = linesFrom (front.reverse ++ line) rest := by
  induction front generalizing line with
  | nil => rfl
  | cons c front ih =>
    have hc : c ≠ '\n' := fun h => hfront (by simp [h])
    have hfront' : '\n' ∉ front := fun h => hfront (by simp [h])
    simp [linesFrom, hc, ih hfront']

/-- A first line without line ends is split off as it stands. -/
theorem lines_append_newline (hfeed : '\n' ∉ front) (hreturn : '\r' ∉ front) (rest : List Char) :
    lines (front ++ '\n' :: rest) = front :: lines rest := by
  have hdrop : dropCarriage front.reverse = front.reverse := by
    unfold dropCarriage
    split
    · rename_i line h
      have : '\r' ∈ front.reverse := by simp [h]
      exact absurd (List.mem_reverse.mp this) hreturn
    · rfl
  rw [lines, linesFrom_append hfeed]
  simp [linesFrom, hdrop, lines]

end Neo4r.Foundation
