import Vidarax.Gemini.Bodies
import Vidarax.Gemini.Transcript

/-!
# Calls of `generateContent`

Package `vidarax-core`, `gemini.rs:419–534,582–615`. A call is rejected, or its answer tells its
usage. Only the message of a rejected call can make the function panic.
-/

namespace Vidarax.Gemini

open Base Json Program

variable {codec : Codec} {deadline : Nat} {xs ys : Transcript} {model body : String}

/-- The saturating sum of usages. -/
def totalUsage (usages : List TokenUsage) : TokenUsage where
  promptTokens := min (usages.map (·.promptTokens)).sum u32Max
  completionTokens := min (usages.map (·.completionTokens)).sum u32Max
  thinkingTokens := min (usages.map (·.thinkingTokens)).sum u32Max
  totalTokens := min (usages.map (·.totalTokens)).sum u32Max

/-- Every count is one of 32 bits. -/
structure TokenUsage.Bounded (usage : TokenUsage) : Prop where
  promptTokens : usage.promptTokens ≤ u32Max
  completionTokens : usage.completionTokens ≤ u32Max
  thinkingTokens : usage.thinkingTokens ≤ u32Max
  totalTokens : usage.totalTokens ≤ u32Max

theorem totalUsage_singleton {usage : TokenUsage} (h : usage.Bounded) :
    totalUsage [usage] = usage := by
  ext
  · simpa [totalUsage] using h.promptTokens
  · simpa [totalUsage] using h.completionTokens
  · simpa [totalUsage] using h.thinkingTokens
  · simpa [totalUsage] using h.totalTokens

theorem totalUsage_pair (usage other : TokenUsage) :
    totalUsage [usage, other] = other.accumulate usage := by
  ext <;> simp [totalUsage, TokenUsage.accumulate, satAdd32, Nat.add_comm]

theorem tokenCount_le (metadata : Json) (key : String) : tokenCount metadata key ≤ u32Max := by
  rw [tokenCount]
  split
  · exact Nat.min_le_right _ _
  · exact Nat.zero_le _

theorem bounded_answerUsage (json : Json) : (answerUsage json).Bounded := by
  rw [answerUsage]
  split
  · exact ⟨tokenCount_le _ _, tokenCount_le _ _, tokenCount_le _ _, tokenCount_le _ _⟩
  · exact ⟨Nat.zero_le _, Nat.zero_le _, Nat.zero_le _, Nat.zero_le _⟩

theorem bounded_of_parseResponse {text : String} {latencyMs : Nat} {result : InferenceResult}
    (h : parseResponse codec text model latencyMs = .ok result) : result.usage.Bounded := by
  rw [parseResponse] at h
  split at h
  · exact nomatch h
  · next json _ =>
    split at h
    · exact nomatch h
    · exact Except.ok.inj h ▸ bounded_answerUsage json

/-! ### One call -/

/-- A function that calls: how often at most, with which bodies, and what its value says of the
usages. -/
structure Calls {α : Type} (codec : Codec) (limit : Nat) (asked : String → Prop)
    (told : α → List TokenUsage → Prop) (xs : Transcript) (result : Except Stop α) : Prop where
  uploaded : uploaded codec xs = []
  deleted : deleted xs = []
  finished : ¬ Unfinished result
  limit : (generated xs).length ≤ limit
  asked : ∀ body ∈ generated xs, asked body
  returns : Returns result ↔ ∀ message ∈ rejected codec xs, TruncatesAt512 message
  told : ∀ a, result = .ok a → told a (usages codec xs)

/-- An error without a rejected call. -/
theorem calls_error {α : Type} {limit : Nat} {asked : String → Prop}
    {told : α → List TokenUsage → Prop} {e : ProviderError} (huploaded : uploaded codec xs = [])
    (hdeleted : deleted xs = []) (hlimit : (generated xs).length ≤ limit)
    (hasked : ∀ body ∈ generated xs, asked body)
    (hrejected : ∀ message ∈ rejected codec xs, TruncatesAt512 message) :
    Calls codec limit asked told xs (.error (.error e)) where
  uploaded := huploaded
  deleted := hdeleted
  finished := id
  limit := hlimit
  asked := hasked
  returns := iff_of_true trivial hrejected
  told := nofun

/-- A value that is made of a value or of an error. -/
theorem Calls.of_returns {α β : Type} {limit limit' : Nat} {asked asked' : String → Prop}
    {told : α → List TokenUsage → Prop} {told' : β → List TokenUsage → Prop}
    {result : Except Stop α} {b : β} (h : Calls codec limit asked told xs result)
    (hlimit : limit ≤ limit') (hasked : ∀ body, asked body → asked' body)
    (hreturns : Returns result) (htold : told' b (usages codec xs)) :
    Calls codec limit' asked' told' xs (.ok b) where
  uploaded := h.uploaded
  deleted := h.deleted
  finished := id
  limit := h.limit.trans hlimit
  asked body hbody := hasked body (h.asked body hbody)
  returns := iff_of_true trivial (h.returns.mp hreturns)
  told _ hb := Except.ok.inj hb ▸ htold

/-- The panic of a part is that of the whole. -/
theorem Calls.panicked {α β : Type} {limit limit' : Nat} {asked asked' : String → Prop}
    {told : α → List TokenUsage → Prop} {told' : β → List TokenUsage → Prop}
    (h : Calls codec limit asked told xs (.error .panicked : Except Stop α))
    (hlimit : limit ≤ limit') (hasked : ∀ body, asked body → asked' body) :
    Calls codec limit' asked' told' xs (.error .panicked : Except Stop β) where
  uploaded := h.uploaded
  deleted := h.deleted
  finished := id
  limit := h.limit.trans hlimit
  asked body hbody := hasked body (h.asked body hbody)
  returns := h.returns
  told := nofun

theorem Calls.after {α : Type} {limit : Nat} {asked : String → Prop}
    {told : α → List TokenUsage → Prop} {result : Except Stop α} (hx : Still codec xs)
    (h : Calls codec limit asked told ys result) :
    Calls codec limit asked told (xs ++ ys) result := by
  obtain ⟨hgenerated, huploaded, hdeleted⟩ := observed_append_of_still hx ys
  obtain ⟨husages, hrejected⟩ := usages_of_generated codec hx.generated
  constructor
  · rw [huploaded, h.uploaded]
  · rw [hdeleted, h.deleted]
  · exact h.finished
  · rw [hgenerated]
    exact h.limit
  · rw [hgenerated]
    exact h.asked
  · rw [rejected_append, hrejected, List.nil_append]
    exact h.returns
  · rw [usages_append, husages, List.nil_append]
    exact h.told

/-- A second function after a first one that has come to a value. -/
theorem Calls.append {α β : Type} {limit limit' : Nat} {asked asked' allowed : String → Prop}
    {told : α → List TokenUsage → Prop} {told' toldAll : β → List TokenUsage → Prop} {a : α}
    {result : Except Stop β} (hx : Calls codec limit asked told xs (.ok a))
    (hy : Calls codec limit' asked' told' ys result) (hasked : ∀ body, asked body → allowed body)
    (hasked' : ∀ body, asked' body → allowed body)
    (htold : ∀ b, result = .ok b → toldAll b (usages codec xs ++ usages codec ys)) :
    Calls codec (limit + limit') allowed toldAll (xs ++ ys) result := by
  constructor
  · rw [uploaded_append, hx.uploaded, hy.uploaded, List.append_nil]
  · rw [deleted_append, hx.deleted, hy.deleted, List.append_nil]
  · exact hy.finished
  · rw [generated_append, List.length_append]
    exact Nat.add_le_add hx.limit hy.limit
  · rw [generated_append, List.forall_mem_append]
    exact ⟨fun body hbody ↦ hasked body (hx.asked body hbody),
      fun body hbody ↦ hasked' body (hy.asked body hbody)⟩
  · rw [rejected_append, List.forall_mem_append, and_iff_right (hx.returns.mp trivial)]
    exact hy.returns
  · rw [usages_append]
    exact htold

theorem rejected_generate {timeout : Nat} {response : Response} :
    rejected codec [⟨.generate model body timeout, .ok response⟩] =
      if isSuccess response.status then [] else [providerMessage codec response.body] := by
  have hmessage : rejectedMessage codec ⟨.generate model body timeout, .ok response⟩ =
      if isSuccess response.status then none else some (providerMessage codec response.body) := rfl
  split
  · next hsuccess => exact List.filterMap_cons_none (hmessage.trans (if_pos hsuccess))
  · next hsuccess => exact List.filterMap_cons_some (hmessage.trans (if_neg hsuccess))

theorem usages_generate {timeout status : Nat} {text : String} {result : InferenceResult}
    (hsuccess : isSuccess status) (h : parseResponse codec text model 0 = .ok result) :
    usages codec [⟨.generate model body timeout, .ok ⟨status, .ok text⟩⟩] = [result.usage] := by
  have husage : answeredUsage codec ⟨.generate model body timeout, .ok ⟨status, .ok text⟩⟩ =
      if isSuccess status then (parseResponse codec text model 0).toOption.map (·.usage)
      else none := rfl
  rw [if_pos hsuccess, h] at husage
  exact List.filterMap_cons_some husage

/-- The usage of one answer. -/
def ToldOnce (result : InferenceResult) (usages : List TokenUsage) : Prop :=
  usages = [result.usage] ∧ result.usage.Bounded

theorem attempt_ends (start : Nat) :
    (attempt codec model body start deadline).Ends (Calls codec 1 (· = body) ToldOnce) := by
  refine ends_remainingUploadTime (fun now ↦ calls_error rfl rfl (Nat.zero_le 1) nofun nofun)
    fun now _ answer ↦ ?_
  have hbody : ∀ asked ∈ [body], asked = body := fun asked ↦ List.mem_singleton.mp
  cases answer with
  | error e => exact ends_fail (calls_error rfl rfl (Nat.le_refl 1) hbody nofun)
  | ok response =>
    have hrejected := @rejected_generate codec model body (deadline - now) response
    dsimp only
    split
    · next hstatus =>
      rw [if_neg hstatus] at hrejected
      -- the message of the answer is cut
      rw [rejectCall]
      split
      · next hcut =>
        refine ends_fail (calls_error rfl rfl (Nat.le_refl 1) hbody ?_)
        exact hrejected ▸ List.forall_mem_singleton.mpr hcut
      · next hcut =>
        refine ends_fail ⟨rfl, rfl, id, Nat.le_refl 1, hbody, iff_of_false id fun hall ↦ ?_, nofun⟩
        exact hcut (List.forall_mem_singleton.mp (hrejected ▸ hall))
    · next hstatus =>
      have hsuccess := not_not.mp hstatus
      rw [if_pos hsuccess] at hrejected
      have hnone : ∀ message ∈ rejected codec [⟨.now, now⟩,
          ⟨.generate model body (deadline - now), .ok response⟩], TruncatesAt512 message :=
        hrejected ▸ nofun
      obtain ⟨status, text⟩ := response
      cases text with
      | error e => exact ends_fail (calls_error rfl rfl (Nat.le_refl 1) hbody hnone)
      | ok text =>
        dsimp only
        cases hread : parseResponse codec text model 0 with
        | error e => exact ends_fail (calls_error rfl rfl (Nat.le_refl 1) hbody hnone)
        | ok result =>
          intro finished
          refine ends_pure ⟨rfl, rfl, id, Nat.le_refl 1, hbody, iff_of_true trivial hnone, ?_⟩
          intro result' hresult
          rw [← Except.ok.inj hresult]
          have husage := @usages_generate codec model body (deadline - now) status text result
            hsuccess hread
          exact ⟨husage, (bounded_of_parseResponse hread : result.usage.Bounded)⟩

/-- The result of the second call counts the usage of the first one. -/
def ToldAfter (before : TokenUsage) (result : Except ProviderError InferenceResult)
    (usages : List TokenUsage) : Prop :=
  ∀ value, result = .ok value → ∃ usage, usages = [usage] ∧ value.usage = usage.accumulate before

theorem reservedOutputTokens_le (request : InferenceRequest) :
    reservedOutputTokens request ≤ u64Max :=
  (Nat.min_le_right _ _).trans (by decide)

theorem retry_ends {request : InferenceRequest} {result : InferenceResult} {json : Json}
    {before : Nat} (hcodec : codec.ReadsObjects) (hpayload : IsPayload before json) :
    (retry codec request model (codec.print json) deadline result).Ends
      (Calls codec 1 (Asks codec (reservedOutputTokens request)) (ToldAfter result.usage)) := by
  obtain ⟨changed, hchanged, hasks⟩ :=
    payloadWithMaxOutputTokens_asks hcodec hpayload (reservedOutputTokens_le request)
  intro learned started
  rw [hchanged]
  cases changed with
  | error e =>
    exact ends_pure ⟨rfl, rfl, id, Nat.zero_le 1, nofun, iff_of_true trivial nofun,
      fun _ hresult ↦ Except.ok.inj hresult ▸ nofun⟩
  | ok body =>
    have hstill : Still codec [⟨.learn model, learned⟩, ⟨.now, started⟩] := ⟨rfl, rfl, rfl⟩
    refine Ends.mono (ends_catching (attempt_ends started) ?_ ?_ ?_ ?_) fun ys result' ↦
      Calls.after hstill
    · intro ys retry h
      obtain ⟨husages, -⟩ := h.told retry rfl
      refine ends_pure ((List.append_nil ys).symm ▸ h.of_returns (Nat.le_refl 1) ?_ trivial ?_)
      · rintro asked rfl
        exact hasks _ rfl
      · intro value hvalue
        exact ⟨retry.usage, husages, congrArg (·.usage) (Except.ok.inj hvalue).symm⟩
    · intro ys e h
      refine ends_pure ((List.append_nil ys).symm ▸ h.of_returns (Nat.le_refl 1) ?_ trivial nofun)
      rintro asked rfl
      exact hasks _ rfl
    · intro ys h
      refine h.panicked (Nat.le_refl 1) ?_
      rintro asked rfl
      exact hasks _ rfl
    · exact fun ys h ↦ (h.finished trivial).elim

/-- No more tokens than those that are reserved are asked for. -/
def AsksWithin (codec : Codec) (request : InferenceRequest) (body : String) : Prop :=
  ∃ tokens ≤ reservedOutputTokens request, Asks codec tokens body

/-- A result has the usage of all successful answers. -/
def ToldAll (result : Except ProviderError InferenceResult) (usages : List TokenUsage) : Prop :=
  ∀ value, result = .ok value → value.usage = totalUsage usages

/-- The first call, and the second one if the first one is starved. -/
theorem attempts_ends {request : InferenceRequest} {json : Json} {tokens : Nat}
    (hcodec : codec.ReadsObjects) (hpayload : IsPayload tokens json)
    (htokens : tokens ≤ reservedOutputTokens request) (reserve : Bool) (start : Nat) :
    (attempts codec request model (codec.print json) reserve start deadline).Ends
      (Calls codec 2 (AsksWithin codec request) ToldAll) := by
  have hfirst : ∀ body, body = codec.print json → AsksWithin codec request body := by
    rintro body rfl
    exact ⟨tokens, htokens, hpayload.asks (htokens.trans (reservedOutputTokens_le request))⟩
  refine ends_catching (attempt_ends start) ?_ ?_ ?_ ?_
  · intro xs result h
    obtain ⟨husages, hbounded⟩ := h.told result rfl
    dsimp only
    split
    · refine (retry_ends hcodec hpayload).mono fun ys result' h' ↦ ?_
      refine h.append h' hfirst (fun body hbody ↦ ⟨_, Nat.le_refl _, hbody⟩) ?_
      intro r hr value hvalue
      obtain ⟨usage, husages', hvalue'⟩ := h'.told r hr value hvalue
      rw [husages, husages', hvalue']
      exact (totalUsage_pair result.usage usage).symm
    · refine ends_pure ((List.append_nil xs).symm ▸ h.of_returns (by decide) hfirst trivial ?_)
      intro value hvalue
      rw [← Except.ok.inj hvalue, husages, totalUsage_singleton hbounded]
  · intro xs e h
    exact ends_pure ((List.append_nil xs).symm ▸ h.of_returns (by decide) hfirst trivial nofun)
  · exact fun xs h ↦ h.panicked (by decide) hfirst
  · exact fun xs h ↦ (h.finished trivial).elim

/-! ### Errors are results -/

theorem retry_caught {request : InferenceRequest} {result : InferenceResult} :
    (retry codec request model body deadline result).Ends fun _ result' ↦
      ∀ e, result' ≠ .error (.error e) := by
  intro learned started
  dsimp only
  split
  · exact ends_fail nofun
  · exact ends_pure nofun
  · exact ends_catching (ends_trivial _) (fun _ _ _ ↦ ends_pure nofun)
      (fun _ _ _ ↦ ends_pure nofun) (fun _ _ ↦ nofun) fun _ _ ↦ nofun

theorem attempts_caught {request : InferenceRequest} (reserve : Bool) (start : Nat) :
    (attempts codec request model body reserve start deadline).Ends fun _ result ↦
      ∀ e, result ≠ .error (.error e) := by
  refine ends_catching (ends_trivial _) (fun xs result _ ↦ ?_) (fun _ _ _ ↦ ends_pure nofun)
    (fun _ _ ↦ nofun) fun _ _ ↦ nofun
  dsimp only
  split
  · exact retry_caught
  · exact ends_pure nofun

end Vidarax.Gemini
