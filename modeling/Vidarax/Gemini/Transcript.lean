import Vidarax.Gemini.Provider

/-!
# What the functions of the provider do

Package `vidarax-core`, `gemini.rs:225–459`. For each function: the calls that it makes, the files
that it uploads and deletes, and how it ends, whatever is answered.
-/

namespace Vidarax.Gemini

open Base Json Program

/-- Operations with their answers. -/
abbrev Transcript : Type := List (Exchange Op Answer)

/-- The body of a `generateContent` call. -/
def generateBody : Exchange Op Answer → Option String
  | ⟨.generate _ body _, _⟩ => some body
  | _ => none

/-- The name in a delete request. -/
def deletedName : Exchange Op Answer → Option String
  | ⟨.delete fileName, _⟩ => some fileName
  | _ => none

section

variable (codec : Codec)

/-- The name of a file whose upload was answered with a URI. -/
def uploadedName : Exchange Op Answer → Option String
  | ⟨.uploadPut .., .ok response⟩ => (readUpload codec response).toOption.map (·.2)
  | _ => none

/-- The usage of a successful `generateContent` answer. -/
def answeredUsage : Exchange Op Answer → Option TokenUsage
  | ⟨.generate model .., .ok ⟨status, .ok text⟩⟩ =>
    if isSuccess status then (parseResponse codec text model 0).toOption.map (·.usage) else none
  | _ => none

/-- The message of a rejected `generateContent` call. -/
def rejectedMessage : Exchange Op Answer → Option (List Char)
  | ⟨.generate .., .ok response⟩ =>
    if isSuccess response.status then none else some (providerMessage codec response.body)
  | _ => none

end

/-- Bodies of the calls. -/
def generated (xs : Transcript) : List String := xs.filterMap generateBody

/-- Names in the delete requests. -/
def deleted (xs : Transcript) : List String := xs.filterMap deletedName

/-- Names of the uploaded files. -/
def uploaded (codec : Codec) (xs : Transcript) : List String := xs.filterMap (uploadedName codec)

/-- Usages of the successful answers. -/
def usages (codec : Codec) (xs : Transcript) : List TokenUsage :=
  xs.filterMap (answeredUsage codec)

/-- Messages of the rejected calls. -/
def rejected (codec : Codec) (xs : Transcript) : List (List Char) :=
  xs.filterMap (rejectedMessage codec)

/-- The clock does not go back, and a sleep lasts as long as it should. -/
def Clocked : Nat → Transcript → Prop
  | _, [] => True
  | t, ⟨.now, now⟩ :: xs => t ≤ now ∧ Clocked now xs
  | t, ⟨.sleep nanos, _⟩ :: xs => Clocked (t + nanos) xs
  | t, _ :: xs => Clocked t xs

/-- The fuel is used up only before a deadline, whatever the time is before the transcript. -/
def InTime (fuel deadline : Nat) (xs : Transcript) (unfinished : Prop) : Prop :=
  unfinished → ∀ t, Clocked t xs → fuel * POLL_INTERVAL < deadline - t + POLL_INTERVAL

/-- The function has come to its end without a panic. -/
def Returns {α : Type} : Except Stop α → Prop
  | .error .panicked => False
  | _ => True

/-- The function has run out of fuel. -/
def Unfinished {α : Type} : Except Stop α → Prop
  | .error .unfinished => True
  | _ => False

/-- An error is the same for the caller. -/
theorem returns_error {α β : Type} {e : Stop} (h : Returns (.error e : Except Stop α)) :
    Returns (.error e : Except Stop β) := by
  cases e with
  | panicked => exact h
  | error e => trivial
  | unfinished => trivial

theorem unfinished_error {α β : Type} {e : Stop} (h : Unfinished (.error e : Except Stop α)) :
    Unfinished (.error e : Except Stop β) := by
  cases e with
  | unfinished => trivial
  | error e => exact h
  | panicked => exact h

variable {codec : Codec} {xs ys : Transcript} {x : Exchange Op Answer} {fuel deadline : Nat}

/-! ### Transcripts in parts -/

@[simp] theorem generated_append : generated (xs ++ ys) = generated xs ++ generated ys :=
  List.filterMap_append

@[simp] theorem deleted_append : deleted (xs ++ ys) = deleted xs ++ deleted ys :=
  List.filterMap_append

@[simp] theorem uploaded_append :
    uploaded codec (xs ++ ys) = uploaded codec xs ++ uploaded codec ys :=
  List.filterMap_append

@[simp] theorem usages_append : usages codec (xs ++ ys) = usages codec xs ++ usages codec ys :=
  List.filterMap_append

@[simp] theorem rejected_append :
    rejected codec (xs ++ ys) = rejected codec xs ++ rejected codec ys :=
  List.filterMap_append

theorem Clocked.append {t : Nat} (h : Clocked t (xs ++ ys)) :
    Clocked t xs ∧ ∃ t', t ≤ t' ∧ Clocked t' ys := by
  induction xs generalizing t with
  | nil => exact ⟨trivial, t, Nat.le_refl t, h⟩
  | cons x xs ih =>
    match x with
    | ⟨.now, now⟩ =>
      obtain ⟨hxs, t', hle, hys⟩ := ih h.2
      exact ⟨⟨h.1, hxs⟩, t', h.1.trans hle, hys⟩
    | ⟨.sleep nanos, _⟩ =>
      obtain ⟨hxs, t', hle, hys⟩ := @ih (t + nanos) h
      exact ⟨hxs, t', (Nat.le_add_right _ _).trans hle, hys⟩
    | ⟨.uploadStart .., _⟩ => exact @ih t h
    | ⟨.uploadPut .., _⟩ => exact @ih t h
    | ⟨.pollGet .., _⟩ => exact @ih t h
    | ⟨.generate .., _⟩ => exact @ih t h
    | ⟨.delete .., _⟩ => exact @ih t h
    | ⟨.learn .., _⟩ => exact @ih t h

/-- The time before a part of the transcript is not earlier. -/
theorem InTime.append {unfinished unfinished' : Prop} (h : InTime fuel deadline ys unfinished)
    (himp : unfinished' → unfinished) (xs : Transcript) :
    InTime fuel deadline (xs ++ ys) unfinished' := by
  intro hunfinished t hclocked
  obtain ⟨-, t', hle, hys⟩ := hclocked.append
  have hfuel := h (himp hunfinished) t' hys
  omega

theorem InTime.mono {unfinished unfinished' : Prop} (h : InTime fuel deadline xs unfinished)
    (himp : unfinished' → unfinished) : InTime fuel deadline xs unfinished' :=
  fun hunfinished ↦ h (himp hunfinished)

theorem inTime_of_finished {unfinished : Prop} (h : ¬ unfinished) :
    InTime fuel deadline xs unfinished := fun hunfinished ↦ absurd hunfinished h

/-- Without calls there are no answers to calls. -/
theorem usages_of_generated (codec : Codec) (h : generated xs = []) :
    usages codec xs = [] ∧ rejected codec xs = [] := by
  rw [generated, List.filterMap_eq_nil_iff] at h
  constructor
  · refine List.filterMap_eq_nil_iff.mpr fun x hx ↦ ?_
    have hnone := h x hx
    unfold answeredUsage
    split
    · exact absurd hnone (Option.some_ne_none _)
    · rfl
  · refine List.filterMap_eq_nil_iff.mpr fun x hx ↦ ?_
    have hnone := h x hx
    unfold rejectedMessage
    split
    · exact absurd hnone (Option.some_ne_none _)
    · rfl

/-! ### Waiting and deleting -/

/-- Errors are caught, unlike the other ends of a function. -/
theorem ends_catching {α β : Type} {call : Call α} {next : Except ProviderError α → Call β}
    {P : Transcript → Except Stop α → Prop} {R : Transcript → Except Stop β → Prop}
    (h : call.Ends P)
    (hok : ∀ xs a, P xs (.ok a) → (next (.ok a)).Ends fun ys result ↦ R (xs ++ ys) result)
    (herror : ∀ xs e, P xs (.error (.error e)) →
      (next (.error e)).Ends fun ys result ↦ R (xs ++ ys) result)
    (hpanicked : ∀ xs, P xs (.error .panicked) → R xs (.error .panicked))
    (hunfinished : ∀ xs, P xs (.error .unfinished) → R xs (.error .unfinished)) :
    (call.catching >>= next).Ends R := by
  refine h.catching_bind hok (fun xs e e' hP hcatch ↦ ?_) fun xs e hP hcatch ↦ ?_
  · cases e with
    | error e => exact Option.some.inj hcatch ▸ herror xs e hP
    | panicked => exact nomatch hcatch
    | unfinished => exact nomatch hcatch
  · cases e with
    | error e => exact nomatch hcatch
    | panicked => exact hpanicked xs hP
    | unfinished => exact hunfinished xs hP

/-- Nothing is called, uploaded or deleted. -/
structure Still (codec : Codec) (xs : Transcript) : Prop where
  generated : generated xs = []
  uploaded : uploaded codec xs = []
  deleted : deleted xs = []

theorem still_nil : Still codec [] := ⟨rfl, rfl, rfl⟩

theorem Still.append (hx : Still codec xs) (hy : Still codec ys) : Still codec (xs ++ ys) := by
  constructor
  · rw [generated_append, hx.generated, hy.generated, List.append_nil]
  · rw [uploaded_append, hx.uploaded, hy.uploaded, List.append_nil]
  · rw [deleted_append, hx.deleted, hy.deleted, List.append_nil]

/-- What comes after nothing is all that there is. -/
theorem observed_append_of_still (hx : Still codec xs) (ys : Transcript) :
    generated (xs ++ ys) = generated ys ∧ uploaded codec (xs ++ ys) = uploaded codec ys ∧
      deleted (xs ++ ys) = deleted ys := by
  rw [generated_append, uploaded_append, deleted_append, hx.generated, hx.uploaded, hx.deleted]
  exact ⟨List.nil_append _, List.nil_append _, List.nil_append _⟩

/-- What goes on with the time that remains, which is positive. -/
theorem ends_remainingUploadTime {α : Type} {next : Nat → Call α}
    {R : Transcript → Except Stop α → Prop}
    (hmissed : ∀ now, R [⟨.now, now⟩] (.error (.error .deadlineMissed)))
    (hleft : ∀ now : Nat, now < deadline →
      (next (deadline - now)).Ends fun xs result ↦ R (⟨.now, now⟩ :: xs) result) :
    (remainingUploadTime deadline >>= next).Ends R := by
  intro now
  dsimp only
  split
  · next hlt => exact hleft now hlt
  · exact hmissed now

/-- The loop waits, and its fuel is enough up to the deadline. -/
theorem pollFileActive_ends (codec : Codec) (fileName : String) (deadline fuel : Nat) :
    (pollFileActive codec fileName deadline fuel).Ends fun xs result ↦
      Still codec xs ∧ Returns result ∧ InTime fuel deadline xs (Unfinished result) := by
  induction fuel with
  | zero =>
    refine ends_fail ⟨still_nil, trivial, fun _ t _ ↦ ?_⟩
    rw [Nat.zero_mul]
    exact Nat.lt_add_left _ (by decide)
  | succ fuel ih =>
    rw [pollFileActive]
    refine ends_remainingUploadTime (fun now ↦ ⟨⟨rfl, rfl, rfl⟩, trivial, inTime_of_finished id⟩)
      fun asked _ answer ↦ ?_
    have hpolled : Still codec [⟨.now, asked⟩, ⟨.pollGet fileName (deadline - asked), answer⟩] :=
      ⟨rfl, rfl, rfl⟩
    have hrejected (e : ProviderError) : (reject e : Call Unit).Ends fun ys result ↦
        Still codec (⟨.now, asked⟩ :: ⟨.pollGet fileName (deadline - asked), answer⟩ :: ys) ∧
          Returns result ∧ InTime (fuel + 1) deadline
            (⟨.now, asked⟩ :: ⟨.pollGet fileName (deadline - asked), answer⟩ :: ys)
            (Unfinished result) := ends_fail ⟨hpolled, trivial, inTime_of_finished id⟩
    dsimp only
    split
    · exact hrejected _
    split
    · exact hrejected _
    split
    · exact hrejected _
    split
    · exact ends_pure ⟨hpolled, trivial, inTime_of_finished id⟩
    split
    · exact hrejected _
    refine ends_remainingUploadTime
      (fun now ↦ ⟨hpolled.append ⟨rfl, rfl, rfl⟩, trivial, inTime_of_finished id⟩)
      fun now hlt slept ↦ ih.mono fun xs result ⟨hrest, hreturns, htime⟩ ↦
        ⟨?_, hreturns, fun hunfinished t hclocked ↦ ?_⟩
    · have hwaited : Still codec [⟨.now, now⟩,
          ⟨.sleep (min (deadline - now) POLL_INTERVAL), slept⟩] := ⟨rfl, rfl, rfl⟩
      exact hpolled.append (hwaited.append hrest)
    -- after the sleep an interval has passed, or the deadline has
    obtain ⟨hasked, hnow, hclocked⟩ : t ≤ asked ∧ asked ≤ now ∧ _ := hclocked
    have hfuel := htime hunfinished _ hclocked
    rw [Nat.succ_mul]
    have hpositive : 0 < POLL_INTERVAL := by decide
    rcases Nat.le_total (deadline - now) POLL_INTERVAL with hshort | hlong
    · rw [Nat.min_eq_left hshort, Nat.add_sub_cancel' hlt.le, Nat.sub_self, Nat.zero_add] at hfuel
      have hnone : fuel = 0 := by
        by_contra hsome
        exact absurd hfuel (Nat.not_lt.mpr (Nat.le_mul_of_pos_left _ (Nat.pos_of_ne_zero hsome)))
      rw [hnone]
      omega
    · rw [Nat.min_eq_right hlong] at hfuel
      omega

/-- Every name is deleted once. -/
theorem deleteUploadedFiles_ends (codec : Codec) (fileNames : List String) :
    (deleteUploadedFiles fileNames).Ends fun xs result ↦
      result = .ok () ∧ generated xs = [] ∧ uploaded codec xs = [] ∧ deleted xs = fileNames := by
  induction fileNames with
  | nil => exact ends_pure ⟨rfl, rfl, rfl, rfl⟩
  | cons fileName fileNames ih =>
    intro answer
    refine ih.mono fun xs result ⟨hresult, hgenerated, huploaded, hdeleted⟩ ↦
      ⟨hresult, hgenerated, huploaded, ?_⟩
    exact congrArg (fileName :: ·) hdeleted

end Vidarax.Gemini
