import Vidarax.Gemini.Attempts
import Vidarax.Gemini.Uploads

/-!
# Calls leave nothing behind

Package `vidarax-core`, `gemini.rs:546–620`. A call of the provider comes to an end, and what it has
uploaded is deleted, except that the message of a rejected call is cut at a byte which need not end
a character.
-/

namespace Vidarax.Gemini

open Base Json Program

variable {codec : Codec} {request : InferenceRequest} {fuel deadline : Nat} {xs ys zs : Transcript}
  {result : Except Stop InferenceResult}

/-- What a call of the provider does. -/
structure Clean (codec : Codec) (request : InferenceRequest) (xs : Transcript)
    (result : Except Stop InferenceResult) : Prop where
  /-- It returns `Ok` or `Err`. -/
  answers : (∃ value, result = .ok value) ∨ ∃ e, result = .error (.error e)
  calls : (generated xs).length ≤ 2
  reserved : ∀ body ∈ generated xs, AsksWithin codec request body
  /-- Every uploaded file is deleted once. -/
  deleted : (deleted xs).Perm (uploaded codec xs)
  /-- No file is deleted before a call. -/
  last : ∃ before after, xs = before ++ after ∧ Gemini.deleted before = [] ∧ generated after = []
  usage : ∀ value, result = .ok value → value.usage = totalUsage (usages codec xs)

/-- How a call ends: after a panic a message could not be cut. -/
inductive Concludes (codec : Codec) (request : InferenceRequest) (fuel deadline : Nat)
    (xs : Transcript) : Except Stop InferenceResult → Prop where
  | clean {result : Except Stop InferenceResult} (h : Clean codec request xs result)
      (hcut : ∀ message ∈ rejected codec xs, TruncatesAt512 message) :
      Concludes codec request fuel deadline xs result
  | panicked (hcut : ¬ ∀ message ∈ rejected codec xs, TruncatesAt512 message) :
      Concludes codec request fuel deadline xs (.error .panicked)
  | unfinished (h : InTime fuel deadline xs True) :
      Concludes codec request fuel deadline xs (.error .unfinished)

theorem Clean.returns (h : Clean codec request xs result) : Returns result := by
  rcases h.answers with ⟨value, rfl⟩ | ⟨e, rfl⟩
  · trivial
  · trivial

theorem Clean.after (hx : Still codec xs) (h : Clean codec request ys result) :
    Clean codec request (xs ++ ys) result := by
  obtain ⟨hgenerated, huploaded, hdeleted⟩ := observed_append_of_still hx ys
  obtain ⟨husages, -⟩ := usages_of_generated codec hx.generated
  constructor
  · exact h.answers
  · rw [hgenerated]
    exact h.calls
  · rw [hgenerated]
    exact h.reserved
  · rw [hdeleted, huploaded]
    exact h.deleted
  · obtain ⟨before, after, rfl, hbefore, hafter⟩ := h.last
    refine ⟨xs ++ before, after, (List.append_assoc _ _ _).symm, ?_, hafter⟩
    rw [deleted_append, hx.deleted, hbefore, List.append_nil]
  · rw [usages_append, husages, List.nil_append]
    exact h.usage

theorem Concludes.after (hx : Still codec xs)
    (h : Concludes codec request fuel deadline ys result) :
    Concludes codec request fuel deadline (xs ++ ys) result := by
  obtain ⟨-, hrejected⟩ := usages_of_generated codec hx.generated
  have hsame : rejected codec (xs ++ ys) = rejected codec ys := by
    rw [rejected_append, hrejected, List.nil_append]
  cases h with
  | clean h hcut => exact .clean (h.after hx) (hsame ▸ hcut)
  | panicked hcut => exact .panicked (hsame ▸ hcut)
  | unfinished h => exact .unfinished (h.append id xs)

/-- Uploads, calls and deletes one after another. -/
theorem clean_of_parts {α : Type} {a : α} {fileNames : List String}
    {outcome : Except ProviderError InferenceResult}
    (hx : Collects codec fuel deadline [] xs (.ok (.ok a, fileNames)))
    (hy : Calls codec 2 (AsksWithin codec request) ToldAll ys (.ok outcome))
    (hgenerated : generated zs = []) (huploaded : uploaded codec zs = [])
    (hdeleted : deleted zs = fileNames) :
    Clean codec request (xs ++ (ys ++ zs)) (outcome.mapError Stop.error) ∧
      ∀ message ∈ rejected codec (xs ++ (ys ++ zs)), TruncatesAt512 message := by
  obtain ⟨husagesx, hrejectedx⟩ := usages_of_generated codec hx.generated
  obtain ⟨husagesz, hrejectedz⟩ := usages_of_generated codec hgenerated
  obtain ⟨more, hnames, hkept, hnone⟩ := hx.value _ fileNames rfl
  have hcalls : generated (xs ++ (ys ++ zs)) = generated ys := by
    rw [generated_append, generated_append, hx.generated, hgenerated, List.append_nil,
      List.nil_append]
  refine ⟨⟨?_, ?_, ?_, ?_, ?_, ?_⟩, ?_⟩
  · cases outcome with
    | ok value => exact .inl ⟨value, rfl⟩
    | error e => exact .inr ⟨e, rfl⟩
  · rw [hcalls]
    exact hy.limit
  · rw [hcalls]
    exact hy.asked
  · rw [deleted_append, deleted_append, uploaded_append, uploaded_append, hkept, hnone rfl,
      hy.deleted, hy.uploaded, hdeleted, huploaded, hnames]
    exact .of_eq (by simp)
  · refine ⟨xs ++ ys, zs, (List.append_assoc _ _ _).symm, ?_, hgenerated⟩
    rw [deleted_append, hnone rfl, hy.deleted, List.append_nil]
  · intro value hvalue
    rw [usages_append, usages_append, husagesx, husagesz, List.append_nil, List.nil_append]
    cases outcome with
    | ok value' => exact Except.ok.inj hvalue ▸ hy.told _ rfl value' rfl
    | error e => exact nomatch hvalue
  · rw [rejected_append, rejected_append, hrejectedx, hrejectedz, List.append_nil,
      List.nil_append]
    exact hy.returns.mp trivial

/-- Without a body the files are deleted that are told. -/
theorem clean_of_error {α : Type} {e e' : ProviderError} {fileNames : List String}
    (hx : Collects codec fuel deadline [] xs
      (.ok (.error e, fileNames) : Except Stop (Except ProviderError α × List String)))
    (hgenerated : generated ys = []) (huploaded : uploaded codec ys = [])
    (hdeleted : deleted ys = fileNames) :
    Clean codec request (xs ++ ys) (.error (.error e')) ∧
      ∀ message ∈ rejected codec (xs ++ ys), TruncatesAt512 message := by
  obtain ⟨more, hnames, hkept, -⟩ := hx.value _ fileNames rfl
  have hcalls : generated (xs ++ ys) = [] := by
    rw [generated_append, hx.generated, hgenerated, List.append_nil]
  refine ⟨⟨.inr ⟨e', rfl⟩, ?_, ?_, ?_, ⟨[], xs ++ ys, rfl, rfl, hcalls⟩, nofun⟩, ?_⟩
  · rw [hcalls]
    exact Nat.zero_le 2
  · rw [hcalls]
    exact nofun
  · rw [deleted_append, uploaded_append, hkept, huploaded, hdeleted, hnames, List.append_nil]
    exact List.perm_append_comm
  · rw [(usages_of_generated codec hcalls).2]
    exact nofun

/-- A call after its deadline is known. -/
theorem call_concludes (hcodec : codec.ReadsObjects) (reserve : Bool) (model : String)
    (start : Nat) :
    (do
      let maxTokens := if reserve then reservedOutputTokens request else request.maxTokens.toNat
      let (body, uploadedFiles) ←
        buildPayloadWithMaxTokens codec fuel request maxTokens model deadline
      match body with
      | .error e => do
        deleteUploadedFiles uploadedFiles
        reject e
      | .ok body => do
        let outcome ← attempts codec request model body reserve start deadline
        deleteUploadedFiles uploadedFiles
        liftResult outcome).Ends (Concludes codec request fuel deadline) := by
  have htokens : (if reserve then reservedOutputTokens request else request.maxTokens.toNat) ≤
      reservedOutputTokens request := by
    split
    · exact Nat.le_refl _
    · exact Nat.le_min.mpr
        ⟨Nat.le_add_right _ _, Nat.le_sub_one_of_lt request.maxTokens.toNat_lt⟩
  refine (buildPayloadWithMaxTokens_ends request _ model).bind ?_ ?_
  · rintro xs e ⟨h, -⟩
    cases e with
    | error e => exact (h.caught e rfl).elim
    | panicked => exact h.returns.elim
    | unfinished => exact .unfinished (h.inTime.mono fun _ ↦ trivial)
  rintro xs ⟨body, uploadedFiles⟩ ⟨h, hbody⟩
  cases body with
  | error e =>
    refine (deleteUploadedFiles_ends codec uploadedFiles).bind (fun ys e h ↦ nomatch h.1) ?_
    rintro ys _ ⟨-, hgenerated, huploaded, hdeleted⟩
    obtain ⟨hclean, hcut⟩ := clean_of_error h hgenerated huploaded hdeleted
    exact ends_fail ((List.append_nil ys).symm ▸ .clean hclean hcut)
  | ok body =>
    obtain ⟨json, rfl, hpayload⟩ := hbody body uploadedFiles rfl
    refine ((attempts_ends hcodec hpayload htokens reserve start).and
      (attempts_caught reserve start)).bind ?_ ?_
    · rintro ys e ⟨hcalls, hcaught⟩
      cases e with
      | error e => exact (hcaught e rfl).elim
      | panicked =>
        refine .panicked fun hcut ↦ hcalls.returns.mpr fun message hmessage ↦ hcut message ?_
        rw [rejected_append]
        exact List.mem_append_right _ hmessage
      | unfinished => exact (hcalls.finished trivial).elim
    · rintro ys outcome ⟨hcalls, -⟩
      refine (deleteUploadedFiles_ends codec uploadedFiles).bind (fun zs e h ↦ nomatch h.1) ?_
      rintro zs _ ⟨-, hgenerated, huploaded, hdeleted⟩
      obtain ⟨hclean, hcut⟩ := clean_of_parts h hcalls hgenerated huploaded hdeleted
      cases outcome with
      | ok value => exact ends_pure ((List.append_nil zs).symm ▸ .clean hclean hcut)
      | error e => exact ends_fail ((List.append_nil zs).symm ▸ .clean hclean hcut)

/-- The result is that of a call without panic if and only if the message of every rejected call
can be cut. -/
theorem Concludes.clean_iff (h : Concludes codec request fuel deadline xs result)
    (hfinished : ¬ Unfinished result) :
    Clean codec request xs result ↔ ∀ message ∈ rejected codec xs, TruncatesAt512 message := by
  cases h with
  | clean h hcut => exact iff_of_true h hcut
  | panicked hcut =>
    refine iff_of_false (fun h ↦ ?_) hcut
    rcases h.answers with ⟨value, hvalue⟩ | ⟨e, he⟩
    · exact nomatch hvalue
    · exact nomatch he
  | unfinished => exact (hfinished trivial).elim

/-- A call returns, asks at most twice and for no more than the reserved tokens, deletes what it has
uploaded and counts its usage, exactly if in no answer that rejects a call the message has more than
512 bytes and a character across the byte at which it is cut. -/
theorem infer_clean_iff (codec : Codec) (hcodec : codec.ReadsObjects) (defaultModel : String)
    (learnedThinking : List String) (request : InferenceRequest) (fuel : Nat)
    (hfuel : request.timeoutMs.toNat / 500 + 2 ≤ fuel) (t : Nat) :
    (infer codec fuel defaultModel learnedThinking request).Ends fun xs result ↦
      Clocked t xs →
        (Clean codec request xs result ↔
          ∀ message ∈ rejected codec xs, TruncatesAt512 message) := by
  intro (start : Nat) (now : Nat)
  dsimp only
  split
  · exact ends_fail fun _ ↦ iff_of_true
      ⟨.inr ⟨_, rfl⟩, Nat.zero_le 2, nofun, .refl [], ⟨[], _, rfl, rfl, rfl⟩, nofun⟩ nofun
  · intro (started : Nat)
    have hcall := @call_concludes codec request fuel
      (start + remainingTimeoutMs request now * 10 ^ 6) hcodec
      (learnedThinking.contains (if request.model = "" then defaultModel else request.model))
      (if request.model = "" then defaultModel else request.model) started
    refine hcall.mono fun xs result hconcludes hclocked ↦ ?_
    have hstill : Still codec [⟨.now, start⟩, ⟨.now, now⟩, ⟨.now, started⟩] := ⟨rfl, rfl, rfl⟩
    refine (hconcludes.after hstill).clean_iff fun hunfinished ↦ ?_
    cases hconcludes with
    | clean h hcut =>
      rcases h.answers with ⟨value, rfl⟩ | ⟨e, rfl⟩
      · exact hunfinished
      · exact hunfinished
    | panicked hcut => exact hunfinished
    | unfinished htime =>
      -- the deadline is not further than the time limit of the request
      obtain ⟨-, hnow, hstarted, hclocked⟩ : t ≤ start ∧ start ≤ now ∧ now ≤ started ∧ _ := hclocked
      have hremaining : remainingTimeoutMs request now ≤ request.timeoutMs.toNat :=
        Nat.min_le_left _ _
      have hlate := htime trivial started hclocked
      rw [POLL_INTERVAL] at hlate
      omega

/-! ### A rejected call -/

/-- 511 bytes and a character of two bytes. -/
def longMessage : List Char := List.replicate 511 'a' ++ ['é']

/-- The body of an answer with status 400. -/
def rejectionBody : String :=
  "\x7b\"error\":\x7b\"code\":400,\"message\":\"" ++ String.ofList longMessage ++ "\"\x7d\x7d"

def rejectionJson : Json :=
  object [("error", object [("code", whole 400), ("message", string (String.ofList longMessage))])]

/-- The body of the only call. -/
def sampleBody : String :=
  "\x7b\"contents\":[\x7b\"parts\":[\x7b\"text\":\"describe\"\x7d]\x7d]," ++
    "\"generationConfig\":\x7b\"maxOutputTokens\":256\x7d\x7d"

/-- The printer and the parser on what is printed and parsed here. -/
def sampleCodec : Codec where
  parse text := if text = rejectionBody then .ok rejectionJson
    else .error "expected value at line 1 column 1"
  print _ := sampleBody
  decodeBase64 _ := .ok []

def sampleRequest : InferenceRequest where
  model := "gemini-3.1-pro"
  prompt := "describe"
  inputImages := []
  inputVideos := []
  maxTokens := 256
  temperature := .zero
  timeoutMs := 60000
  guidedJson := none
  deadlineAt := 60000 * 10 ^ 6

def worker : Call InferenceResult := infer sampleCodec 122 "gemini-3.1-pro" [] sampleRequest

theorem sampleCodec_parse {text : String} (h : text ≠ rejectionBody) :
    sampleCodec.parse text = .error "expected value at line 1 column 1" :=
  if_neg h

theorem sampleCodec_parse_rejection {text : String} (h : text = rejectionBody) :
    sampleCodec.parse text = .ok rejectionJson :=
  if_pos h

theorem sampleCodec_readsObjects : sampleCodec.ReadsObjects := by
  intro json read _ hread
  have herror := sampleCodec_parse (show sampleBody ≠ rejectionBody by decide +kernel)
  exact nomatch herror.symm.trans hread

theorem not_truncatesAt512_rejection :
    ¬ TruncatesAt512 (providerMessage sampleCodec (.ok rejectionBody)) := by
  have hread : (pointer rejectionJson ["error", "message"]).bind asStr =
      some (String.ofList longMessage) := rfl
  rw [providerMessage, sampleCodec_parse_rejection rfl]
  dsimp only
  rw [hread, Option.getD_some, String.toList_ofList]
  decide +kernel

theorem attempts_leaves_panicked (model body : String) (reserve : Bool) {deadline : Nat}
    (hleft : 0 < deadline) :
    (attempts sampleCodec sampleRequest model body reserve 0 deadline).Leaves
      [⟨.now, (0 : Nat)⟩, ⟨.generate model body deadline, .ok ⟨400, .ok rejectionBody⟩⟩]
      (.error .panicked) := by
  have hattempt : (attempt sampleCodec model body 0 deadline).Leaves [⟨.now, (0 : Nat)⟩,
      ⟨.generate model body deadline, .ok ⟨400, .ok rejectionBody⟩⟩] (.error .panicked) := by
    refine .perform _ ?_
    dsimp only
    rw [if_pos hleft]
    refine .perform _ ?_
    dsimp only
    rw [if_pos (by decide), rejectCall, if_neg not_truncatesAt512_rejection]
    exact .done _
  exact (hattempt.catching_error rfl).bind_error

/-- The worker panics on an answer with status 400. -/
theorem worker_leaves_panicked : ∃ model body timeout,
    worker.Leaves [⟨.now, (0 : Nat)⟩, ⟨.now, (0 : Nat)⟩, ⟨.now, (0 : Nat)⟩, ⟨.now, (0 : Nat)⟩,
      ⟨.generate model body timeout, .ok ⟨400, .ok rejectionBody⟩⟩] (.error .panicked) := by
  have hlimit : ¬ remainingTimeoutMs sampleRequest 0 = 0 := by decide +kernel
  have hdeadline : (requestDeadline sampleRequest).Leaves [⟨.now, (0 : Nat)⟩, ⟨.now, (0 : Nat)⟩]
      (.ok (0 + remainingTimeoutMs sampleRequest 0 * 10 ^ 6)) := by
    refine .perform _ ?_
    refine .perform _ ?_
    dsimp only
    rw [if_neg hlimit]
    exact .done _
  have hbody (tokens : Nat) (model : String) (deadline : Nat) :
      (buildPayloadWithMaxTokens sampleCodec 122 sampleRequest tokens model deadline).Leaves []
        (.ok (.ok sampleBody, [])) := .done _
  have hleft : 0 < 0 + remainingTimeoutMs sampleRequest 0 * 10 ^ 6 := by decide +kernel
  have hcalls := attempts_leaves_panicked
    (if sampleRequest.model = "" then "gemini-3.1-pro" else sampleRequest.model) sampleBody false
    hleft
  exact ⟨_, _, _, hdeadline.bind (.perform _ ((hbody _ _ _).bind hcalls.bind_error))⟩

theorem rejection_panics :
    ¬ worker.Ends fun xs result ↦ Clocked 0 xs → Clean sampleCodec sampleRequest xs result := by
  intro h
  obtain ⟨model, body, timeout, hleaves⟩ := worker_leaves_panicked
  have hzero : 0 ≤ 0 := Nat.le_refl 0
  exact (h.of_leaves hleaves ⟨hzero, hzero, hzero, hzero, trivial⟩).returns

theorem infer_clean_iff_sample :
    sampleCodec.ReadsObjects ∧ sampleRequest.timeoutMs.toNat / 500 + 2 ≤ 122 ∧
      worker.Ends fun xs result ↦
        Clocked 0 xs →
          (Clean sampleCodec sampleRequest xs result ↔
            ∀ message ∈ rejected sampleCodec xs, TruncatesAt512 message) :=
  ⟨sampleCodec_readsObjects, by decide,
    infer_clean_iff sampleCodec sampleCodec_readsObjects _ [] sampleRequest 122 (by decide) 0⟩

end Vidarax.Gemini
