import Mathlib.Tactic

/-!
# Reading a file with the C library

A stream open for reading is its position, the bytes from there to the end of the file, and the end-of-file
indicator. `fgets` and `fread` are those of the C library, on a file that can be read.
-/

structure FILE where
  /-- `ftello` -/
  pos : Nat
  /-- The bytes from the position on. -/
  rest : List UInt8
  /-- `feof` -/
  eof : Bool
  deriving DecidableEq

namespace FILE

open List

/-- `fopen`, or a seek to the start. -/
def start (data : List UInt8) : FILE := ⟨0, data, false⟩

def seek (data : List UInt8) (offset : Nat) : FILE := ⟨offset, data.drop offset, false⟩

/-- The bytes `fgets` stores, at most `n` of them and none behind a newline, and whether it met the end of the file. -/
def line : Nat → List UInt8 → List UInt8 × Bool
  | 0, _ => ([], false)
  | _ + 1, [] => ([], true)
  | n + 1, c :: rest => if c = 10 then ([c], false) else ((c :: (line n rest).1), (line n rest).2)

/-- `fgets(buf,size,fp)`; `none` for `NULL`. -/
def fgets (size : Nat) (fp : FILE) : Option (List UInt8) × FILE :=
  let (buf, atEnd) := line (size - 1) fp.rest
  (if buf = [] then none else some buf, ⟨fp.pos + buf.length, fp.rest.drop buf.length, fp.eof || atEnd⟩)

/-- `fread(buf,size,1,fp)`; `none` if it does not return 1. -/
def fread (size : Nat) (fp : FILE) : Option (List UInt8) × FILE :=
  if size ≤ fp.rest.length then (some (fp.rest.take size), ⟨fp.pos + size, fp.rest.drop size, fp.eof⟩)
  else (none, ⟨fp.pos + fp.rest.length, [], true⟩)

variable {n pos : Nat} {text rest : List UInt8} {eof : Bool}

lemma line_append (hn : text.length ≤ n) (htext : 10 ∉ text) :
    line n (text ++ rest) = (text ++ (line (n - text.length) rest).1, (line (n - text.length) rest).2) := by
  induction text generalizing n with
  | nil => rfl
  | cons c text ih =>
    cases n with
    | zero => cases hn
    | succ n =>
      rw [mem_cons, not_or] at htext
      rw [cons_append, line, if_neg (Ne.symm htext.1), ih (Nat.le_of_succ_le_succ hn) htext.2, length_cons,
        Nat.succ_sub_succ]
      rfl

lemma line_newline (hn : text.length < n) (htext : 10 ∉ text) : line n (text ++ 10 :: rest) = (text ++ [10], false) := by
  obtain ⟨k, hk⟩ := Nat.exists_eq_succ_of_ne_zero (Nat.sub_ne_zero_of_lt hn)
  rw [line_append hn.le htext, hk]
  rfl

lemma line_end (hn : text.length < n) (htext : 10 ∉ text) : line n text = (text, true) := by
  obtain ⟨k, hk⟩ := Nat.exists_eq_succ_of_ne_zero (Nat.sub_ne_zero_of_lt hn)
  have h : line n (text ++ []) = _ := line_append hn.le htext
  rwa [hk, append_nil, show line (k + 1) [] = ([], true) from rfl, append_nil] at h

lemma fgets_line (pos : Nat) (rest : List UInt8) (eof : Bool) (hn : text.length + 1 < n) (htext : 10 ∉ text) :
    fgets n ⟨pos, text ++ 10 :: rest, eof⟩ = (some (text ++ [10]), ⟨pos + (text.length + 1), rest, eof⟩) := by
  have hdrop : (text ++ 10 :: rest).drop (text.length + 1) = rest := by
    rw [drop_append, drop_eq_nil_of_le (Nat.le_succ _)]
    simp
  rw [fgets, line_newline (Nat.lt_sub_of_add_lt hn) htext]
  simp [hdrop]

lemma fgets_end (hn : text.length + 1 < n) (htext : 10 ∉ text) (hne : text ≠ []) :
    fgets n ⟨pos, text, eof⟩ = (some text, ⟨pos + text.length, [], true⟩) := by
  rw [fgets, line_end (Nat.lt_sub_of_add_lt hn) htext]
  simp [hne]

lemma fgets_nil (hn : 1 < n) : fgets n ⟨pos, [], eof⟩ = (none, ⟨pos, [], true⟩) := by
  rw [fgets, line_end (Nat.lt_sub_of_add_lt hn) (not_mem_nil)]
  simp

lemma fread_append (pos : Nat) (text rest : List UInt8) (eof : Bool) : fread text.length ⟨pos, text ++ rest, eof⟩ = (some text, ⟨pos + text.length, rest, eof⟩) := by
  rw [fread, if_pos (by simp)]
  simp

lemma fread_short (h : rest.length < n) : fread n ⟨pos, rest, eof⟩ = (none, ⟨pos + rest.length, [], true⟩) := by
  rw [fread, if_neg (Nat.not_le.mpr h)]

end FILE
