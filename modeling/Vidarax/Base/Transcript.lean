import Vidarax.Base.Program

/-!
# Transcripts of programs

Library `Base`. A program that runs to its end leaves a transcript of its operations with their
answers, and a result. What holds of the transcript and result for all answers is shown along the
structure of the program.
-/

namespace Vidarax.Base

/-- An operation with its answer. -/
structure Exchange (Op : Type) (Answer : Op → Type) where
  op : Op
  answer : Answer op

namespace Program

variable {Op : Type} {Answer : Op → Type} {ε ε' α β : Type}

/-- Transcripts with results. -/
abbrev Outcomes (Op : Type) (Answer : Op → Type) (ε α : Type) : Type :=
  List (Exchange Op Answer) → Except ε α → Prop

/-- Whatever the operations answer, the transcript and the result are as described. -/
def Ends (P : Outcomes Op Answer ε α) : Program Op Answer ε α → Prop
  | done result => P [] result
  | perform op next => ∀ answer, (next answer).Ends fun xs result ↦ P (⟨op, answer⟩ :: xs) result

/-- A transcript and a result that a program may leave. -/
inductive Leaves : Program Op Answer ε α → List (Exchange Op Answer) → Except ε α → Prop where
  | done (result : Except ε α) : Leaves (done result) [] result
  | perform {op : Op} {next : Answer op → Program Op Answer ε α} {xs : List (Exchange Op Answer)}
      {result : Except ε α} (answer : Answer op) (h : Leaves (next answer) xs result) :
      Leaves (perform op next) (⟨op, answer⟩ :: xs) result

variable {P Q : Outcomes Op Answer ε α} {p : Program Op Answer ε α}

theorem ends_done {result : Except ε α} (h : P [] result) : (done result).Ends P := h

theorem ends_pure {a : α} (h : P [] (.ok a)) : (pure a : Program Op Answer ε α).Ends P := h

theorem ends_fail {e : ε} (h : P [] (.error e)) : (fail e : Program Op Answer ε α).Ends P := h

theorem ends_trivial (p : Program Op Answer ε α) : p.Ends fun _ _ ↦ True := by
  induction p with
  | done result => trivial
  | perform op next ih => exact ih

theorem Ends.mono (h : p.Ends P) (hmono : ∀ xs result, P xs result → Q xs result) : p.Ends Q := by
  induction p generalizing P Q with
  | done result => exact hmono [] result h
  | perform op next ih => exact fun answer ↦ ih answer (h answer) fun xs result ↦ hmono _ result

theorem Ends.and (hp : p.Ends P) (hq : p.Ends Q) :
    p.Ends fun xs result ↦ P xs result ∧ Q xs result := by
  induction p generalizing P Q with
  | done result => exact ⟨hp, hq⟩
  | perform op next ih => exact fun answer ↦ ih answer (hp answer) (hq answer)

/-- The transcript of a program and of what it goes on with. -/
theorem Ends.bind {next : α → Program Op Answer ε β} {R : Outcomes Op Answer ε β} (h : p.Ends P)
    (herror : ∀ xs e, P xs (.error e) → R xs (.error e))
    (hok : ∀ xs a, P xs (.ok a) → (next a).Ends fun ys result ↦ R (xs ++ ys) result) :
    (p >>= next).Ends R := by
  induction p generalizing P R with
  | done result =>
    cases result with
    | ok a => exact hok [] a h
    | error e => exact herror [] e h
  | perform op rest ih =>
    exact fun answer ↦ ih answer (h answer) (fun xs e ↦ herror _ e) fun xs a ↦ hok _ a

/-- A single operation. -/
theorem ends_ask {op : Op} {next : Answer op → Program Op Answer ε β} {R : Outcomes Op Answer ε β}
    (h : ∀ answer, (next answer).Ends fun xs result ↦ R (⟨op, answer⟩ :: xs) result) :
    ((ask op : Program Op Answer ε (Answer op)) >>= next).Ends R := h

/-- Errors become results, apart from those that go on. -/
def catching (catchable : ε → Option ε') :
    Program Op Answer ε α → Program Op Answer ε (Except ε' α)
  | done (.ok a) => done (.ok (.ok a))
  | done (.error e) =>
    match catchable e with
    | some e' => done (.ok (.error e'))
    | none => done (.error e)
  | perform op next => perform op fun answer ↦ (next answer).catching catchable

/-- What goes on with the result of a program, or with an error of it. -/
theorem Ends.catching_bind {catchable : ε → Option ε'}
    {next : Except ε' α → Program Op Answer ε β} {R : Outcomes Op Answer ε β} (h : p.Ends P)
    (hok : ∀ xs a, P xs (.ok a) → (next (.ok a)).Ends fun ys result ↦ R (xs ++ ys) result)
    (hcaught : ∀ xs e e', P xs (.error e) → catchable e = some e' →
      (next (.error e')).Ends fun ys result ↦ R (xs ++ ys) result)
    (herror : ∀ xs e, P xs (.error e) → catchable e = none → R xs (.error e)) :
    (p.catching catchable >>= next).Ends R := by
  induction p generalizing P R with
  | done result =>
    cases result with
    | ok a => exact hok [] a h
    | error e =>
      rw [Program.catching]
      split
      · next e' hcatch => exact hcaught [] e e' h hcatch
      · next hcatch => exact herror [] e h hcatch
  | perform op rest ih =>
    exact fun answer ↦ ih answer (h answer) (fun xs a ↦ hok _ a) (fun xs e e' ↦ hcaught _ e e')
      fun xs e ↦ herror _ e

/-! ### Single transcripts -/

section Leaves

variable {xs ys : List (Exchange Op Answer)} {e : ε}

theorem Ends.of_leaves {result : Except ε α} (h : p.Ends P) (hleaves : p.Leaves xs result) :
    P xs result := by
  induction hleaves generalizing P with
  | done result => exact h
  | perform answer _ ih => exact ih (h answer)

theorem Leaves.bind {a : α} {next : α → Program Op Answer ε β} {result : Except ε β}
    (h : p.Leaves xs (.ok a)) (hnext : (next a).Leaves ys result) :
    (p >>= next).Leaves (xs ++ ys) result := by
  generalize hr : (Except.ok a : Except ε α) = r at h
  induction h with
  | done result => exact hr ▸ hnext
  | perform answer _ ih => exact .perform answer (ih hr)

theorem Leaves.bind_error {next : α → Program Op Answer ε β} (h : p.Leaves xs (.error e)) :
    (p >>= next).Leaves xs (.error e) := by
  generalize hr : (Except.error e : Except ε α) = r at h
  induction h with
  | done result => exact hr ▸ .done (.error e)
  | perform answer _ ih => exact .perform answer (ih hr)

theorem Leaves.catching_error {catchable : ε → Option ε'} (h : p.Leaves xs (.error e))
    (hcatch : catchable e = none) : (p.catching catchable).Leaves xs (.error e) := by
  generalize hr : (Except.error e : Except ε α) = r at h
  induction h with
  | done result =>
    rw [← hr, Program.catching, hcatch]
    exact .done (.error e)
  | perform answer _ ih => exact .perform answer (ih hr)

end Leaves

end Program

end Vidarax.Base
