import JitRedis.Lib.Stdio
import JitRedis.Util.Strings

/-!
# Commands in the append only file

`catAppendOnlyGenericCommand` of `src/aof.c` writes a command; the loop over the arguments in `loadAppendOnlyFile` reads
it back. A command that the file holds only a part of ends in a short read.
-/

open Fallible List

namespace JitRedis

def crlf : Bytes := [13, 10]

/-- An argument with its length line. -/
def bulkText (arg : Bytes) : Bytes := 36 :: ll2string arg.length ++ crlf ++ arg ++ crlf

def catAppendOnlyGenericCommand (dst : Bytes) (argv : List Bytes) : Bytes :=
  argv.foldl (fun dst arg => dst ++ bulkText arg) (dst ++ (42 :: ll2string argv.length ++ crlf))

def commandText (argv : List Bytes) : Bytes := catAppendOnlyGenericCommand [] argv

def commandsText (cmds : List (List Bytes)) : Bytes := cmds.flatMap commandText

/-- The limits of the C types: the number of arguments is an `int`, a length is that of an allocated string. -/
structure Writable (argv : List Bytes) : Prop where
  ne_nil : argv ≠ []
  argc : argv.length < 2 ^ 31
  args : ∀ arg ∈ argv, arg.length < 2 ^ 62

/-- How the loop of `loadAppendOnlyFile` is left. -/
inductive LoadExit where
  /-- The `break` at the end of the file. -/
  | eof
  | readerr
  | fmterr
  /-- `Unknown command reading the append only file` -/
  | unknownCommand
  | fault (f : Fault)
  deriving DecidableEq

/-- One turn of the loop over the arguments. -/
def readArg (fp : FILE) : Except (LoadExit × FILE) (Bytes × FILE) :=
  match FILE.fgets 128 fp with
  | (none, fp) => .error (.readerr, fp)
  | (some buf, fp) =>
    if buf.head? ≠ some 36 then .error (.fmterr, fp)
    else
      let len := (strtol buf.tail % 2 ^ 64).toNat
      -- `sdsnewlen` does not get that much memory
      if 2 ^ 62 ≤ len then .error (.fault .oom, fp)
      else
        match if len = 0 then (some [], fp) else FILE.fread len fp with
        | (none, fp) => .error (.readerr, fp)
        | (some arg, fp) =>
          match FILE.fread 2 fp with
          | (none, fp) => .error (.readerr, fp)
          | (some _, fp) => .ok (arg, fp)

/-- The loop over the arguments; `argc` of them are left to read. -/
def readArgv : Nat → FILE → Except (LoadExit × FILE) (List Bytes × FILE)
  | 0, fp => .ok ([], fp)
  | argc + 1, fp => do
    let (arg, fp) ← readArg fp
    let (argv, fp) ← readArgv argc fp
    .ok (arg :: argv, fp)

/-- The head of the loop, which reads one command. -/
def readCommand (fp : FILE) : Except (LoadExit × FILE) (List Bytes × FILE) :=
  match FILE.fgets 128 fp with
  | (none, fp) => .error (if fp.eof then .eof else .readerr, fp)
  | (some buf, fp) =>
    if buf.head? ≠ some 42 then .error (.fmterr, fp)
    else if cstr buf.tail = [] then .error (.readerr, fp)
    else
      let argc := atoi buf.tail
      if argc < 1 then .error (.fmterr, fp) else readArgv argc.toNat fp

lemma commandsText_append (cs ds : List (List Bytes)) : commandsText (cs ++ ds) = commandsText cs ++ commandsText ds :=
  flatMap_append ..

lemma foldl_bulkText (argv : List Bytes) (dst : Bytes) :
    argv.foldl (fun dst arg => dst ++ bulkText arg) dst = dst ++ argv.flatMap bulkText := by
  induction argv generalizing dst with
  | nil => exact (append_nil dst).symm
  | cons arg argv ih => rw [foldl_cons, ih, flatMap_cons, append_assoc]

lemma catAppendOnlyGenericCommand_eq (dst : Bytes) (argv : List Bytes) :
    catAppendOnlyGenericCommand dst argv = dst ++ commandText argv := by
  rw [commandText, catAppendOnlyGenericCommand, catAppendOnlyGenericCommand, foldl_bulkText, foldl_bulkText,
    append_assoc, nil_append]

lemma length_decimal_le {n : Nat} (h : n < 2 ^ 63) : (decimal n).length ≤ 21 := by
  rw [← ll2string_natCast h]
  exact length_ll2string_le _

lemma newline_notMem_decimal (n : Nat) : 10 ∉ decimal n :=
  fun h => ne_of_isdigit (isdigit_decimal n 10 h) (by decide) rfl

lemma prefix_append_cases {t a b : Bytes} (h : t <+: a ++ b) : t <+: a ∧ t ≠ a ∨ ∃ t', t = a ++ t' ∧ t' <+: b := by
  rcases prefix_or_prefix_of_prefix h (prefix_append a b) with ha | ⟨t', rfl⟩
  · by_cases heq : t = a
    · exact .inr ⟨[], by rw [heq, append_nil], nil_prefix⟩
    · exact .inl ⟨ha, heq⟩
  · exact .inr ⟨t', rfl, (prefix_append_right_inj a).mp h⟩

/-- A header line: a mark and a number. -/
def headerText (mark : UInt8) (n : Nat) : Bytes := mark :: decimal n ++ crlf

section Header

variable {mark : UInt8} {n pos : Nat} {eof : Bool} {rest t : Bytes}

lemma fgets_header (hmark : mark ≠ 10) (hn : n < 2 ^ 63) :
    FILE.fgets 128 ⟨pos, headerText mark n ++ rest, eof⟩ =
      (some (headerText mark n), ⟨pos + (headerText mark n).length, rest, eof⟩) := by
  have hlen := length_decimal_le hn
  have htext : 10 ∉ mark :: decimal n ++ [13] := by
    simp [hmark.symm, newline_notMem_decimal n]
  have := FILE.fgets_line (n := 128) pos rest eof (by simp; omega) htext
  simpa [headerText, crlf] using this

lemma fgets_tornHeader (pos : Nat) (eof : Bool) (hmark : mark ≠ 10) (hn : n < 2 ^ 63) (ht : t <+: headerText mark n) (hne : t ≠ [])
    (hshort : t ≠ headerText mark n) :
    FILE.fgets 128 ⟨pos, t, eof⟩ = (some t, ⟨pos + t.length, [], true⟩) ∧
      ∃ p q, t = mark :: (p ++ q) ∧ p <+: decimal n ∧ (p = [] → q = []) ∧ ∀ c ∈ q.head?, isdigit c = false := by
  have hlen := length_decimal_le hn
  have hline : t <+: mark :: decimal n ++ [13] := by
    have : headerText mark n = mark :: decimal n ++ [13] ++ [10] := by simp [headerText, crlf]
    rw [this] at ht hshort
    rcases prefix_concat_iff.mp ht with h | h
    · exact absurd h hshort
    · exact h
  have htext : 10 ∉ t := by
    intro h
    have := hline.subset h
    simp [hmark.symm, newline_notMem_decimal n] at this
  have hsize : t.length ≤ (mark :: decimal n ++ [13]).length := hline.length_le
  refine ⟨FILE.fgets_end (by simp at hsize; omega) htext hne, ?_⟩
  obtain ⟨c, t', rfl⟩ := exists_cons_of_ne_nil hne
  rw [cons_append, cons_prefix_cons] at hline
  obtain ⟨rfl, hline⟩ := hline
  rcases prefix_append_cases hline with ⟨hp, -⟩ | ⟨q, rfl, hq⟩
  · exact ⟨t', [], by rw [append_nil], hp, fun _ => rfl, fun _ h => (nomatch h)⟩
  refine ⟨decimal n, q, rfl, prefix_rfl, fun h => absurd h (decimal_ne_nil n), ?_⟩
  intro c hc
  cases q with
  | nil => cases hc
  | cons d q =>
    cases hc
    rw [cons_prefix_cons] at hq
    rw [hq.1]
    rfl

end Header

section Reading

variable {argv : List Bytes} {arg : Bytes} {pos n : Nat} {eof : Bool} {rest t : Bytes}

lemma bulkText_eq (h : arg.length < 2 ^ 62) : bulkText arg = headerText 36 arg.length ++ (arg ++ crlf) := by
  rw [bulkText, ll2string_natCast (by omega), headerText]
  simp

lemma commandText_eq (h : argv.length < 2 ^ 31) :
    commandText argv = headerText 42 argv.length ++ argv.flatMap bulkText := by
  rw [commandText, catAppendOnlyGenericCommand, foldl_bulkText, ll2string_natCast (by omega), headerText, nil_append]

lemma strtol_header (hn : n < 2 ^ 63) : strtol (headerText 36 n).tail = n := by
  have := strtol_digits (decimal_ne_nil n) (isdigit_decimal n) (q := crlf) (fun c hc => by cases hc; rfl)
    (by rw [digitsValue_decimal]; exact hn)
  rw [digitsValue_decimal] at this
  exact this

lemma readArg_header (harg : arg.length < 2 ^ 62) :
    readArg ⟨pos, headerText 36 arg.length ++ t, eof⟩ =
      let fp := ⟨pos + (headerText 36 arg.length).length, t, eof⟩
      match if arg.length = 0 then (some [], fp) else FILE.fread arg.length fp with
      | (none, fp) => .error (.readerr, fp)
      | (some arg, fp) =>
        match FILE.fread 2 fp with
        | (none, fp) => .error (.readerr, fp)
        | (some _, fp) => .ok (arg, fp) := by
  have hlen : (strtol (headerText 36 arg.length).tail % 2 ^ 64).toNat = arg.length := by
    rw [strtol_header (by omega)]
    omega
  rw [readArg, fgets_header (by decide) (by omega)]
  dsimp only
  rw [if_neg (fun hne => hne rfl), hlen, if_neg (by omega)]

lemma fread_arg : (if arg.length = 0 then (some [], ⟨pos, arg ++ t, eof⟩) else FILE.fread arg.length ⟨pos, arg ++ t, eof⟩) =
    (some arg, (⟨pos + arg.length, t, eof⟩ : FILE)) := by
  split
  · rename_i hzero
    rw [length_eq_zero_iff.mp hzero]
    rfl
  · exact FILE.fread_append ..

lemma readArg_text (harg : arg.length < 2 ^ 62) :
    readArg ⟨pos, bulkText arg ++ rest, eof⟩ = .ok (arg, ⟨pos + (bulkText arg).length, rest, eof⟩) := by
  have hcrlf := FILE.fread_append (pos + (headerText 36 arg.length).length + arg.length) crlf rest eof
  rw [bulkText_eq harg, append_assoc, append_assoc, readArg_header harg]
  dsimp only
  rw [fread_arg]
  dsimp only
  rw [show (2 : Nat) = crlf.length from rfl, hcrlf]
  simp [Nat.add_assoc]

lemma strtol_torn {p q : Bytes} (hn : n < 2 ^ 62) (hp : p <+: decimal n) (hempty : p = [] → q = [])
    (hq : ∀ c ∈ q.head?, isdigit c = false) : 0 ≤ strtol (p ++ q) ∧ strtol (p ++ q) < 2 ^ 62 := by
  by_cases hnil : p = []
  · rw [hnil, hempty hnil]
    decide
  obtain ⟨p', hp'⟩ := hp
  have hle := digitsValue_le_append p p'
  rw [hp', digitsValue_decimal] at hle
  have digits : ∀ c ∈ p, isdigit c = true := fun c hc =>
    isdigit_decimal n c (by rw [← hp']; exact mem_append_left _ hc)
  rw [strtol_digits hnil digits hq (by omega)]
  omega

lemma readArg_torn (harg : arg.length < 2 ^ 62) (ht : t <+: bulkText arg) (hshort : t ≠ bulkText arg) :
    ∃ fp, readArg ⟨pos, t, eof⟩ = .error (.readerr, fp) ∧ fp.eof = true := by
  rw [bulkText_eq harg] at ht hshort
  rcases prefix_append_cases ht with ⟨hline, hne⟩ | ⟨t', rfl, ht'⟩
  · -- the length line is cut: nothing is left to read behind it
    by_cases hnil : t = []
    · rw [hnil]
      exact ⟨_, by rw [readArg, FILE.fgets_nil (by norm_num)], rfl⟩
    obtain ⟨hgets, p, q, rfl, hp, hempty, hq⟩ := fgets_tornHeader pos eof (by decide) (by omega) hline
      hnil hne
    obtain ⟨low, high⟩ := strtol_torn harg hp hempty hq
    rw [readArg, hgets]
    dsimp only
    rw [if_neg (fun hne => hne rfl), tail_cons, if_neg (by omega)]
    by_cases hzero : (strtol (p ++ q) % 2 ^ 64).toNat = 0
    · rw [if_pos hzero]
      exact ⟨_, rfl, rfl⟩
    · rw [if_neg hzero, FILE.fread_short (Nat.pos_of_ne_zero hzero)]
      exact ⟨_, rfl, rfl⟩
  · rw [readArg_header harg]
    dsimp only
    rcases prefix_append_cases ht' with ⟨hbytes, hne⟩ | ⟨t'', rfl, hcrlf⟩
    · have hlt : t'.length < arg.length :=
        Nat.lt_of_le_of_ne hbytes.length_le fun h => hne (hbytes.eq_of_length h)
      rw [if_neg (by omega), FILE.fread_short hlt]
      exact ⟨_, rfl, rfl⟩
    have hne : t'' ≠ crlf := fun h => hshort (by rw [h])
    have hlt : t''.length < 2 := Nat.lt_of_le_of_ne hcrlf.length_le fun h => hne (hcrlf.eq_of_length h)
    rw [fread_arg]
    dsimp only
    rw [FILE.fread_short hlt]
    exact ⟨_, rfl, rfl⟩

lemma readArgv_text (h : ∀ arg ∈ argv, arg.length < 2 ^ 62) :
    readArgv argv.length ⟨pos, argv.flatMap bulkText ++ rest, eof⟩ =
      .ok (argv, ⟨pos + (argv.flatMap bulkText).length, rest, eof⟩) := by
  induction argv generalizing pos with
  | nil => rfl
  | cons arg argv ih =>
    rw [flatMap_cons, length_cons, append_assoc, readArgv, readArg_text (h arg (mem_cons_self ..)),
      ok_bind]
    dsimp only
    rw [ih fun a ha => h a (mem_cons_of_mem _ ha), ok_bind, length_append, Nat.add_assoc]

lemma readArgv_torn (h : ∀ arg ∈ argv, arg.length < 2 ^ 62) (ht : t <+: argv.flatMap bulkText)
    (hshort : t ≠ argv.flatMap bulkText) :
    ∃ fp, readArgv argv.length ⟨pos, t, eof⟩ = .error (.readerr, fp) ∧ fp.eof = true := by
  induction argv generalizing pos t with
  | nil => exact absurd (prefix_nil.mp ht) hshort
  | cons arg argv ih =>
    have harg := h arg (mem_cons_self ..)
    rw [flatMap_cons] at ht hshort
    rw [length_cons, readArgv]
    rcases prefix_append_cases ht with ⟨htorn, hne⟩ | ⟨t', rfl, ht'⟩
    · obtain ⟨fp, hread, heof⟩ := readArg_torn harg htorn hne
      exact ⟨fp, by rw [hread]; rfl, heof⟩
    obtain ⟨fp, hread, heof⟩ := ih (fun a ha => h a (mem_cons_of_mem _ ha)) ht' fun heq => hshort (by rw [heq])
    refine ⟨fp, ?_, heof⟩
    rw [readArg_text harg, ok_bind]
    dsimp only
    rw [hread]
    rfl

lemma readCommand_header (h : Writable argv) :
    readCommand ⟨pos, headerText 42 argv.length ++ t, eof⟩ =
      readArgv argv.length ⟨pos + (headerText 42 argv.length).length, t, eof⟩ := by
  have hargc := h.argc
  have hpos : 0 < argv.length := length_pos_of_ne_nil h.ne_nil
  have digits := isdigit_decimal argv.length
  have hcstr : cstr (headerText 42 argv.length).tail ≠ [] := by
    rw [headerText, cons_append, tail_cons, cstr_append_of_isdigit digits]
    exact append_ne_nil_of_left_ne_nil (decimal_ne_nil _) _
  have hatoi : atoi (headerText 42 argv.length).tail = argv.length := by
    have := atoi_digits (decimal_ne_nil argv.length) digits (q := crlf) (fun c hc => by cases hc; rfl)
      (by rw [digitsValue_decimal]; omega)
    rw [digitsValue_decimal] at this
    exact this
  rw [readCommand, fgets_header (by decide) (by omega)]
  dsimp only
  rw [if_neg (fun hne => hne rfl), if_neg hcstr, hatoi, if_neg (by omega), Int.toNat_natCast]

lemma readCommand_text (pos : Nat) (rest : Bytes) (eof : Bool) (h : Writable argv) : readCommand ⟨pos, commandText argv ++ rest, eof⟩ =
    .ok (argv, ⟨pos + (commandText argv).length, rest, eof⟩) := by
  rw [commandText_eq h.argc, append_assoc, readCommand_header h, readArgv_text h.args, length_append,
    Nat.add_assoc]

lemma readCommand_torn (pos : Nat) (eof : Bool) (h : Writable argv) (ht : t <+: commandText argv) (hshort : t ≠ commandText argv) (hne : t ≠ []) :
    ∃ fp, readCommand ⟨pos, t, eof⟩ = .error (.readerr, fp) ∧ fp.eof = true := by
  have hargc := h.argc
  have hpos : 0 < argv.length := length_pos_of_ne_nil h.ne_nil
  rw [commandText_eq hargc] at ht hshort
  rcases prefix_append_cases ht with ⟨hline, hcut⟩ | ⟨t', rfl, ht'⟩
  · obtain ⟨hgets, p, q, rfl, hp, hempty, hq⟩ := fgets_tornHeader pos eof (by decide) (by omega) hline
      hne hcut
    rw [readCommand, hgets]
    dsimp only
    rw [if_neg (fun hne => hne rfl), tail_cons]
    by_cases hnil : p = []
    · -- only the mark is there
      rw [hnil, hempty hnil]
      exact ⟨_, rfl, rfl⟩
    obtain ⟨p', hp'⟩ := hp
    have digits : ∀ c ∈ p, isdigit c = true := fun c hc =>
      isdigit_decimal argv.length c (by rw [← hp']; exact mem_append_left _ hc)
    have hle := digitsValue_le_append p p'
    rw [hp', digitsValue_decimal] at hle
    have hone : 1 ≤ digitsValue p := by
      obtain ⟨c, p, rfl⟩ := exists_cons_of_ne_nil hnil
      have hhead := decimal_head hpos c (by rw [← hp']; rfl)
      have hfirst := digitsValue_le_append [c] p
      have : digitsValue [c] = c.toNat - 48 := by simp [digitsValue]
      rw [singleton_append] at hfirst
      omega
    have hcstr : cstr (p ++ q) ≠ [] := by
      rw [cstr_append_of_isdigit digits]
      exact append_ne_nil_of_left_ne_nil hnil _
    rw [if_neg hcstr, atoi_digits hnil digits hq (by omega)]
    obtain ⟨argc, hargs⟩ := Nat.exists_eq_add_one.mpr hone
    rw [hargs]
    exact ⟨_, rfl, rfl⟩
  · rw [readCommand_header h]
    exact readArgv_torn h.args ht' fun heq => hshort (by rw [heq])

end Reading

end JitRedis
