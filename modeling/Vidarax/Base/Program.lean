import Mathlib.Data.List.Basic

/-!
# Programs that act on a world

Library `Base`. A program performs operations one after another and goes on with their answers.
Its environment decides how each operation ends, what it answers and what it leaves of the world,
and may end the program between any two of them. A run is the list of the operations that were
performed; what all of them keep to is shown along the structure of the program.
-/

namespace Vidarax.Base

/-- Programs over operations with answers, whose result may be an error. -/
inductive Program (Op : Type) (Answer : Op → Type) (ε α : Type) where
  | done (result : Except ε α)
  | perform (op : Op) (next : Answer op → Program Op Answer ε α)

/-- An operation that was performed for a call, with the worlds before and after it. -/
structure Event (ι Op σ : Type) where
  call : ι
  op : Op
  before : σ
  after : σ

namespace Program

variable {ι Op : Type} {Answer : Op → Type} {ε α β σ ω : Type}

/-- Go on with a second program, unless the first one fails. -/
def bind : Program Op Answer ε α → (α → Program Op Answer ε β) → Program Op Answer ε β
  | done (.ok a), next => next a
  | done (.error e), _ => done (.error e)
  | perform op rest, next => perform op fun answer ↦ (rest answer).bind next

instance : Monad (Program Op Answer ε) where
  pure a := done (.ok a)
  bind := bind

/-- Perform one operation. -/
def ask (op : Op) : Program Op Answer ε (Answer op) := perform op fun answer ↦ done (.ok answer)

/-- End with an error. -/
def fail (e : ε) : Program Op Answer ε α := done (.error e)

/-- The outcome of a computation. -/
def lift (result : Except ε α) : Program Op Answer ε α := done result

/-- A program whose error is its result. -/
def attempt : Program Op Answer ε α → Program Op Answer ε (Except ε α)
  | done result => done (.ok result)
  | perform op rest => perform op fun answer ↦ (rest answer).attempt

/-! ### Runs -/

section

variable (act : (op : Op) → ω → σ → Answer op × σ)

/-- The operations that a program performs from a world, with the way each of them ends. It is
ended from outside when there are no more of these. -/
def events (call : ι) : Program Op Answer ε α → σ → List ω → List (Event ι Op σ)
  | perform op rest, w, outcome :: outcomes =>
    ⟨call, op, w, (act op outcome w).2⟩ ::
      (rest (act op outcome w).1).events call (act op outcome w).2 outcomes
  | _, _, _ => []

/-- World after a list of events. -/
def lastWorld (w : σ) (events : List (Event ι Op σ)) : σ :=
  (events.getLast?.map (·.after)).getD w

/-- What the programs of calls perform one after another. -/
def history (program : ι → Program Op Answer ε α) (w : σ) :
    List (ι × List ω) → List (Event ι Op σ)
  | [] => []
  | (call, outcomes) :: calls =>
    let performed := (program call).events act call w outcomes
    performed ++ history program (lastWorld w performed) calls

/-- While the operations of a program from a world are as assumed, they are also allowed, and a
result or an error that it ends with meets a condition. -/
def Keeps (assumed allowed : Op → σ → σ → Prop) (good : α → σ → Prop) (bad : ε → σ → Prop) :
    Program Op Answer ε α → σ → Prop
  | done (.ok a), w => good a w
  | done (.error e), w => bad e w
  | perform op rest, w =>
    ∀ outcome, assumed op w (act op outcome w).2 →
      allowed op w (act op outcome w).2 ∧
        (rest (act op outcome w).1).Keeps assumed allowed good bad (act op outcome w).2

end

/-- Every event of a list, with the events before it, meets a condition. -/
def Throughout (P : List (Event ι Op σ) → Event ι Op σ → Prop) :
    List (Event ι Op σ) → List (Event ι Op σ) → Prop
  | _, [] => True
  | past, e :: es => P past e ∧ Throughout P (past ++ [e]) es

instance Throughout.decidable {P : List (Event ι Op σ) → Event ι Op σ → Prop}
    [∀ past e, Decidable (P past e)] :
    (past es : List (Event ι Op σ)) → Decidable (Throughout P past es)
  | _, [] => .isTrue trivial
  | past, e :: es =>
    have := Throughout.decidable (P := P) (past ++ [e]) es
    inferInstanceAs (Decidable (P past e ∧ Throughout P (past ++ [e]) es))

/-- Every event begins in the world that the one before it left. -/
def Linked (w : σ) : List (Event ι Op σ) → Prop
  | [] => True
  | e :: es => e.before = w ∧ Linked e.after es

@[simp]
theorem lastWorld_nil (w : σ) : lastWorld w ([] : List (Event ι Op σ)) = w := rfl

@[simp]
theorem lastWorld_cons (w : σ) (e : Event ι Op σ) (es : List (Event ι Op σ)) :
    lastWorld w (e :: es) = lastWorld e.after es := by
  cases es with
  | nil => rfl
  | cons e' es => rw [lastWorld, lastWorld, List.getLast?_cons_cons, List.getLast?_cons]; rfl

theorem linked_append {w : σ} {es es' : List (Event ι Op σ)} :
    Linked w (es ++ es') ↔ Linked w es ∧ Linked (lastWorld w es) es' := by
  induction es generalizing w with
  | nil => simp [Linked]
  | cons e es ih => simp [Linked, ih, and_assoc]

theorem throughout_append {P : List (Event ι Op σ) → Event ι Op σ → Prop}
    {past es es' : List (Event ι Op σ)} :
    Throughout P past (es ++ es') ↔ Throughout P past es ∧ Throughout P (past ++ es) es' := by
  induction es generalizing past with
  | nil => simp [Throughout]
  | cons e es ih => simp [Throughout, ih, and_assoc]

theorem Throughout.exists_past {P : List (Event ι Op σ) → Event ι Op σ → Prop}
    {past es : List (Event ι Op σ)} (h : Throughout P past es) :
    ∀ e ∈ es, ∃ more, P (past ++ more) e := by
  induction es generalizing past with
  | nil => nofun
  | cons e es ih =>
    rw [List.forall_mem_cons]
    refine ⟨⟨[], by rw [List.append_nil]; exact h.1⟩, fun e' he' ↦ ?_⟩
    obtain ⟨more, hP⟩ := ih h.2 e' he'
    exact ⟨[e] ++ more, by rwa [← List.append_assoc]⟩

theorem Throughout.of_mem {P : Event ι Op σ → Prop} {past es : List (Event ι Op σ)}
    (h : Throughout (fun _ e ↦ P e) past es) : ∀ e ∈ es, P e := by
  induction es generalizing past with
  | nil => nofun
  | cons e es ih => exact List.forall_mem_cons.2 ⟨h.1, ih h.2⟩

/-- What every event preserves, with all that came before it, holds all along. -/
theorem Linked.throughout {w : σ} {past es : List (Event ι Op σ)} (h : Linked w es)
    {P : List (Event ι Op σ) → Event ι Op σ → Prop} (inv : List (Event ι Op σ) → σ → Prop)
    (hw : inv past w)
    (hstep : ∀ past e, e ∈ es → inv past e.before → P past e ∧ inv (past ++ [e]) e.after) :
    Throughout P past es ∧ inv (past ++ es) (lastWorld w es) := by
  induction es generalizing past w with
  | nil => exact ⟨trivial, by rwa [List.append_nil]⟩
  | cons e es ih =>
    obtain ⟨hP, hinv⟩ := hstep past e List.mem_cons_self (h.1 ▸ hw)
    obtain ⟨hrest, hlast⟩ := ih h.2 hinv fun past e he ↦ hstep past e (List.mem_cons_of_mem _ he)
    rw [List.append_assoc, List.singleton_append] at hlast
    exact ⟨⟨hP, hrest⟩, by rwa [lastWorld_cons]⟩

theorem call_of_mem_events {act : (op : Op) → ω → σ → Answer op × σ} {call : ι}
    {p : Program Op Answer ε α} {w : σ} {outcomes : List ω} :
    ∀ e ∈ p.events act call w outcomes, e.call = call := by
  induction p generalizing w outcomes with
  | done result => nofun
  | perform op rest ih =>
    cases outcomes with
    | nil => nofun
    | cons outcome outcomes => exact List.forall_mem_cons.2 ⟨rfl, ih _⟩

theorem linked_events {act : (op : Op) → ω → σ → Answer op × σ} {call : ι}
    {p : Program Op Answer ε α} {w : σ} {outcomes : List ω} :
    Linked w (p.events act call w outcomes) := by
  induction p generalizing w outcomes with
  | done result => exact trivial
  | perform op rest ih =>
    cases outcomes with
    | nil => exact trivial
    | cons outcome outcomes => exact ⟨rfl, ih _⟩

theorem linked_history {act : (op : Op) → ω → σ → Answer op × σ}
    {program : ι → Program Op Answer ε α} {w : σ} (calls : List (ι × List ω)) :
    Linked w (history act program w calls) := by
  induction calls generalizing w with
  | nil => exact trivial
  | cons call calls ih => exact linked_append.2 ⟨linked_events, ih⟩

/-- A history of calls, each of which preserves an invariant while a condition is met. -/
theorem throughout_history {act : (op : Op) → ω → σ → Answer op × σ}
    {program : ι → Program Op Answer ε α} {P Q : List (Event ι Op σ) → Event ι Op σ → Prop}
    (inv : List (Event ι Op σ) → σ → Prop)
    (hcall : ∀ call past w outcomes, inv past w →
      Throughout Q past ((program call).events act call w outcomes) →
        Throughout P past ((program call).events act call w outcomes) ∧
          inv (past ++ (program call).events act call w outcomes)
            (lastWorld w ((program call).events act call w outcomes)))
    {past : List (Event ι Op σ)} {w : σ} {calls : List (ι × List ω)} (hw : inv past w)
    (hQ : Throughout Q past (history act program w calls)) :
    Throughout P past (history act program w calls) := by
  induction calls generalizing past w with
  | nil => trivial
  | cons call calls ih =>
    rw [history, throughout_append] at hQ ⊢
    obtain ⟨hP, hlast⟩ := hcall call.1 past w call.2 hw hQ.1
    exact ⟨hP, ih hlast hQ.2⟩

/-! ### Rules -/

section Rules

variable {act : (op : Op) → ω → σ → Answer op × σ} {assumed allowed : Op → σ → σ → Prop}
  {good : α → σ → Prop} {bad : ε → σ → Prop} {w : σ}

theorem keeps_pure {a : α} (h : good a w) :
    (pure a : Program Op Answer ε α).Keeps act assumed allowed good bad w := h

theorem keeps_fail {e : ε} (h : bad e w) :
    (fail e : Program Op Answer ε α).Keeps act assumed allowed good bad w := h

theorem keeps_lift {result : Except ε α} (hgood : ∀ a, result = .ok a → good a w)
    (hbad : ∀ e, result = .error e → bad e w) :
    (lift result : Program Op Answer ε α).Keeps act assumed allowed good bad w := by
  cases result with
  | ok a => exact hgood a rfl
  | error e => exact hbad e rfl

theorem keeps_ask {op : Op} {good : Answer op → σ → Prop}
    (h : ∀ outcome, assumed op w (act op outcome w).2 →
      allowed op w (act op outcome w).2 ∧ good (act op outcome w).1 (act op outcome w).2) :
    (ask op : Program Op Answer ε (Answer op)).Keeps act assumed allowed good bad w := h

theorem Keeps.mono {p : Program Op Answer ε α} {good' : α → σ → Prop}
    (h : p.Keeps act assumed allowed good bad w) (hgood : ∀ a w, good a w → good' a w) :
    p.Keeps act assumed allowed good' bad w := by
  induction p generalizing w with
  | done result =>
    cases result with
    | ok a => exact hgood a w h
    | error e => exact h
  | perform op rest ih =>
    intro outcome hassumed
    exact ⟨(h outcome hassumed).1, ih _ (h outcome hassumed).2⟩

/-- A sequence keeps to what its first part keeps to, and its second part after it. -/
theorem Keeps.bind {p : Program Op Answer ε α} {next : α → Program Op Answer ε β}
    {good' : β → σ → Prop} (h : p.Keeps act assumed allowed good bad w)
    (hnext : ∀ a w, good a w → (next a).Keeps act assumed allowed good' bad w) :
    (p >>= next).Keeps act assumed allowed good' bad w := by
  change (p.bind next).Keeps act assumed allowed good' bad w
  induction p generalizing w with
  | done result =>
    cases result with
    | ok a => exact hnext a w h
    | error e => exact h
  | perform op rest ih =>
    intro outcome hassumed
    exact ⟨(h outcome hassumed).1, ih _ (h outcome hassumed).2⟩

theorem Keeps.attempt {p : Program Op Answer ε α} {good' : Except ε α → σ → Prop}
    {bad' : ε → σ → Prop} (h : p.Keeps act assumed allowed good bad w)
    (hgood : ∀ a w, good a w → good' (.ok a) w) (hbad : ∀ e w, bad e w → good' (.error e) w) :
    p.attempt.Keeps act assumed allowed good' bad' w := by
  induction p generalizing w with
  | done result =>
    cases result with
    | ok a => exact hgood a w h
    | error e => exact hbad e w h
  | perform op rest ih =>
    intro outcome hassumed
    exact ⟨(h outcome hassumed).1, ih _ (h outcome hassumed).2⟩

/-- In a run whose events are as assumed, every event is allowed. -/
theorem Keeps.events {p : Program Op Answer ε α} {call : ι}
    (h : p.Keeps act assumed allowed good bad w) {outcomes : List ω}
    (hassumed : ∀ e ∈ p.events act call w outcomes, assumed e.op e.before e.after) :
    ∀ e ∈ p.events act call w outcomes, allowed e.op e.before e.after := by
  induction p generalizing w outcomes with
  | done result => nofun
  | perform op rest ih =>
    cases outcomes with
    | nil => nofun
    | cons outcome outcomes =>
      rw [Program.events, List.forall_mem_cons] at hassumed ⊢
      have h' := h outcome hassumed.1
      exact ⟨h'.1, ih _ h'.2 hassumed.2⟩

end Rules

end Program

end Vidarax.Base
