import Mathlib.Algebra.GroupWithZero.Nat
import Mathlib.Data.List.Destutter
import Mathlib.Data.List.Sort

/-!
# Select expressions

Package `vidarax-core`, `crates/vidarax-core/src/ingest/ffmpeg.rs:957–1084`. The numbers of the
frames that are to be decoded are written as one expression for the `select` filter. Words hold the
numbers below `limit`; arithmetic that leaves them is an error. The strings of the terms are in
memory at once, each behind a header of three words.
-/

namespace Vidarax.Ingest

/-! ### Expressions -/

/-- Expressions of the filter in the number `n` of a frame. -/
inductive SelectExpr where
  | n
  | num (value : Nat)
  | sub (a b : SelectExpr)
  | mul (a b : SelectExpr)
  | add (a b : SelectExpr)
  | eq (a b : SelectExpr)
  | lt (a b : SelectExpr)
  | mod (a b : SelectExpr)
  | between (a low high : SelectExpr)

namespace SelectExpr

/-- The value of an expression. -/
def eval (frame : Nat) : SelectExpr → Int
  | n => frame
  | num value => value
  | sub a b => a.eval frame - b.eval frame
  | mul a b => a.eval frame * b.eval frame
  | add a b => a.eval frame + b.eval frame
  | eq a b => if a.eval frame = b.eval frame then 1 else 0
  | lt a b => if a.eval frame < b.eval frame then 1 else 0
  | mod a b => (a.eval frame).fmod (b.eval frame)
  | between a low high =>
    if low.eval frame ≤ a.eval frame ∧ a.eval frame ≤ high.eval frame then 1 else 0

/-- The text of an expression. Commas are escaped for the parser of filters. -/
def render : SelectExpr → String
  | n => "n"
  | num value => toString value
  | sub a b => a.render ++ "-" ++ b.render
  | mul a b => a.render ++ "*" ++ b.render
  | add a b => a.render ++ "+" ++ b.render
  | eq a b => "eq(" ++ a.render ++ "\\," ++ b.render ++ ")"
  | lt a b => "lt(" ++ a.render ++ "\\," ++ b.render ++ ")"
  | mod a b => "mod(" ++ a.render ++ "\\," ++ b.render ++ ")"
  | between a low high =>
    "between(" ++ a.render ++ "\\," ++ low.render ++ "\\," ++ high.render ++ ")"

end SelectExpr

open SelectExpr

/-! ### Builder -/

/-- What can go wrong. -/
inductive BuildError where
  | overflow
  /-- There is no room for the strings. -/
  | memory
  deriving DecidableEq

variable (limit : Nat)

/-- Addition of words. -/
def checkedAdd (a b : Nat) : Except BuildError Nat :=
  if a + b < limit then .ok (a + b) else .error .overflow

/-- Subtraction of words. -/
def checkedSub (a b : Nat) : Except BuildError Nat :=
  if b ≤ a then .ok (a - b) else .error .overflow

/-- The numbers in ascending order, each once; `ffmpeg.rs:1004–1012`. -/
def normalize (indices : List Nat) : List Nat :=
  if indices.IsChain (· < ·) then indices
  else (indices.mergeSort fun a b ↦ a ≤ b).destutter (· ≠ ·)

/-- One number is added to the runs; `ffmpeg.rs:1016–1021`. -/
def extendRuns (runs : List (Nat × Nat)) (idx : Nat) : Except BuildError (List (Nat × Nat)) :=
  match runs.getLast? with
  | some (lo, hi) => do
    let next ← checkedAdd limit hi 1
    if idx = next then .ok (runs.dropLast ++ [(lo, idx)]) else .ok (runs ++ [(idx, idx)])
  | none => .ok [(idx, idx)]

/-- The maximal runs of consecutive numbers; `ffmpeg.rs:1015`. -/
def coalesce (indices : List Nat) : Except BuildError (List (Nat × Nat)) :=
  indices.foldlM (extendRuns limit) []

/-- How many runs are in a block at least; `ffmpeg.rs:1034`. -/
def COLLAPSE : Nat := 3

/-- How many of the runs after one that starts at `lo` go on with its block: they have the length
`l`, and the stride is `s`; `ffmpeg.rs:1044–1048`. -/
def blockLength (s l : Nat) : Nat → List (Nat × Nat) → Except BuildError Nat
  | _, [] => .ok 0
  | lo, (lo', hi') :: rest => do
    let gap ← checkedSub lo' lo
    if gap = s then
      let width ← checkedSub hi' lo'
      let length ← checkedAdd limit width 1
      if length = l then
        let more ← blockLength s l lo' rest
        return more + 1
      else return 0
    else return 0

/-- A run on its own; `ffmpeg.rs:1067–1071`. -/
def runTerm (lo hi : Nat) : SelectExpr :=
  if lo = hi then eq n (num lo) else between n (num lo) (num hi)

/-- A block of runs; `ffmpeg.rs:1050–1060`. -/
def blockTerm (first last s l : Nat) : SelectExpr :=
  let modarg := if first = 0 then n else sub n (num first)
  if l = 1 then mul (between n (num first) (num last)) (eq (mod modarg (num s)) (num 0))
  else mul (between n (num first) (num last)) (lt (mod modarg (num s)) (num l))

/-- The last number of a block. -/
def blockEnd (hi : Nat) (runs : List (Nat × Nat)) : Nat := (runs.getLast?.map Prod.snd).getD hi

/-- The main loop on the runs that are left; `ffmpeg.rs:1037–1073`. -/
def emitTerms : List (Nat × Nat) → Except BuildError (List SelectExpr)
  | [] => .ok []
  | (lo, hi) :: rest => do
    let width ← checkedSub hi lo
    let l ← checkedAdd limit width 1
    match rest.head? with
    | none => return [runTerm lo hi]
    | some (lo', _) =>
      let s ← checkedSub lo' lo
      let more ← blockLength limit s l lo rest
      if more + 1 ≥ COLLAPSE then
        let terms ← emitTerms (rest.drop more)
        return blockTerm lo (blockEnd hi (rest.take more)) s l :: terms
      else
        let terms ← emitTerms rest
        return runTerm lo hi :: terms
termination_by runs => runs.length
decreasing_by
  all_goals simp only [List.length_drop, List.length_cons]
  all_goals omega

/-- The terms of the expression. -/
def selectTerms (indices : List Nat) : Except BuildError (List SelectExpr) := do
  let runs ← coalesce limit (normalize indices)
  emitTerms limit runs

/-- Bytes of a string with its header. -/
def stringBytes (text : String) : Nat := text.utf8ByteSize + 24

/-- A term is counted with the sign in front of it. -/
def addCapacity (bytes : Nat) (term : String) : Except BuildError Nat := do
  let size ← checkedAdd limit term.utf8ByteSize 1
  checkedAdd limit bytes size

/-- The capacity that is reserved for the expression; `ffmpeg.rs:1075`. -/
def capacity (terms : List String) : Except BuildError Nat := do
  let bytes ← terms.foldlM (addCapacity limit) 0
  checkedAdd limit bytes 10

/-- `build_select_expr`; `ffmpeg.rs:987`. -/
def buildSelectExpr (indices : List Nat) : Except BuildError String :=
  if indices = [] then .ok "select='0'"
  else do
    let terms ← selectTerms limit indices
    let texts := terms.map render
    if limit < (texts.map stringBytes).sum then .error .memory
    else
      let _ ← capacity limit texts
      return "select='" ++ "+".intercalate texts ++ "'"

example : buildSelectExpr (2 ^ 64) [0, 1, 5, 6, 10, 11] =
    .ok "select='between(n\\,0\\,11)*lt(mod(n\\,5)\\,2)'" := by decide +kernel

end Vidarax.Ingest
