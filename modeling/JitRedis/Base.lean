import Mathlib.Tactic

/-!
# Byte strings and faults

The ways in which the modelled C code can stop instead of returning. Every function below returns in
`Except Fault`, so that a result about it also says which of these cannot happen.
-/

namespace JitRedis

/-- A byte string: an `sds`, or a pointer with its length. -/
abbrev Bytes := List UInt8

/-- Why a modelled C function does not return. -/
inductive Fault where
  /-- `zmalloc` found no memory and `zmalloc_oom_handler` aborted the process. -/
  | oom
  /-- An `assert`, `serverAssert` or `serverPanic` fired. -/
  | assertFailed
  /-- A `NULL` pointer or an index past the end was accessed. -/
  | badAccess
  /-- More bytes were written than the memory allocated for them holds. -/
  | overflow
  /-- `lpInsert` returned `NULL`, for a listpack above `2 ^ 32 - 1` bytes; its callers go on with that pointer. -/
  | listpackFull
  /-- Bytes compressed by LZF were read or changed as a ziplist. -/
  | lzfAccess
  /-- A run with its monitor on was about to take the branch under observation. The code itself never stops here. -/
  | monitor
  /-- A loop did not end within the bound that the model gives it. -/
  | diverged
  deriving DecidableEq, Repr

/-- The only fault a run may end in is the abort of the allocator. -/
abbrev OnlyOom (f : Fault) : Prop := f = .oom

abbrev NoFault (_ : Fault) : Prop := False

end JitRedis
