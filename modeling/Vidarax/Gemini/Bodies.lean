import Vidarax.Gemini.Payload

/-!
# Output tokens of the bodies

Package `vidarax-core`, `gemini.rs:183–218,661–684`. A body asks for the output tokens that it is
built with, and after its change for the reserved ones.
-/

namespace Vidarax.Gemini

open Base Json

variable {codec : Codec} {request : InferenceRequest} {tokens : Nat} {json config : Json}

/-- A body that asks for output tokens. -/
def Asks (codec : Codec) (tokens : Nat) (body : String) : Prop :=
  ∃ json, body = codec.print json ∧ maxOutputTokens json = some tokens

/-- A generation configuration with output tokens. -/
structure IsConfig (tokens : Nat) (config : Json) : Prop where
  object : config.IsObject
  tokens : config.get "maxOutputTokens" = some (whole (.ofNat tokens))

/-- A payload with output tokens. -/
structure IsPayload (tokens : Nat) (json : Json) : Prop where
  object : json.IsObject
  config : ∃ config, json.get "generationConfig" = some config ∧ IsConfig tokens config

theorem IsConfig.insert {key : String} {value : Json} (h : IsConfig tokens config)
    (hkey : "maxOutputTokens" ≠ key) : IsConfig tokens (config.insert key value) :=
  ⟨h.object.insert, (get_insert_ne hkey).trans h.tokens⟩

theorem isConfig_generationConfig (request : InferenceRequest) (tokens : Nat) (model : String) :
    IsConfig tokens (generationConfig request tokens model) := by
  have hbegin : IsConfig tokens (object [("maxOutputTokens", whole (.ofNat tokens))]) :=
    ⟨trivial, rfl⟩
  have htemperature : IsConfig tokens
      (if supportsSamplingParameters model then
        (object [("maxOutputTokens", whole (.ofNat tokens))]).insert "temperature"
          (Json.ofF32 request.temperature)
      else object [("maxOutputTokens", whole (.ofNat tokens))]) := by
    split
    · exact hbegin.insert (by decide)
    · exact hbegin
  rw [generationConfig]
  split
  · exact htemperature.insert (by decide)
  · exact htemperature

theorem isPayload_payload {model : String} {parts : List Json}
    (h : payload codec request tokens model parts = .ok json) : IsPayload tokens json := by
  have hconfig := isConfig_generationConfig request tokens model
  have hbody {config contents : Json} (h : IsConfig tokens config) :
      IsPayload tokens (object [("contents", contents), ("generationConfig", config)]) :=
    ⟨trivial, config, rfl, h⟩
  rw [payload] at h
  split at h
  · exact Except.ok.inj h ▸ hbody hconfig
  · split at h
    · exact nomatch h
    · exact Except.ok.inj h ▸ hbody ((hconfig.insert (by decide)).insert (by decide))

theorem IsPayload.asks (h : IsPayload tokens json) (htokens : tokens ≤ u64Max) :
    Asks codec tokens (codec.print json) := by
  obtain ⟨config, hconfig, hobject, hmax⟩ := h.config
  refine ⟨json, rfl, ?_⟩
  rw [maxOutputTokens, hconfig, Option.bind_some, hmax]
  exact congrArg some (toNat_ofNat_of_le htokens)

/-- Assignment to a member of an object. -/
theorem assign_of_get {key : String} {value : Json} (f : Json → Option Json)
    (hobject : json.IsObject) (h : json.get key = some value) :
    assign json key f = (f value).map fun value ↦ json.insert key value := by
  cases json with
  | object members =>
    rw [assign, show members.lookup key = some value from h]
    rfl
  | _ => exact hobject.elim

theorem assign_value {key : String} {value : Json} (hobject : json.IsObject) :
    assign json key (fun _ ↦ some value) = some (json.insert key value) := by
  cases json with
  | object members => rfl
  | _ => exact hobject.elim

/-- The change of a body does not panic. -/
theorem payloadWithMaxOutputTokens_asks (hcodec : codec.ReadsObjects) {before : Nat}
    (h : IsPayload before json) (htokens : tokens ≤ u64Max) :
    ∃ result, payloadWithMaxOutputTokens codec (codec.print json) tokens = some result ∧
      ∀ body, result = .ok body → Asks codec tokens body := by
  rw [payloadWithMaxOutputTokens]
  cases hread : codec.parse (codec.print json) with
  | error e => exact ⟨_, rfl, nofun⟩
  | ok read =>
    obtain ⟨config, hconfig, hobject, -⟩ := h.config
    obtain ⟨hread, hmembers⟩ := hcodec json read h.object hread
    obtain ⟨config', hconfig', hobject'⟩ := hmembers _ config hconfig hobject
    have hchanged : IsConfig tokens (config'.insert "maxOutputTokens" (whole (.ofNat tokens))) :=
      ⟨hobject'.insert, get_insert_self hobject'⟩
    have hpayload : IsPayload tokens (read.insert "generationConfig"
        (config'.insert "maxOutputTokens" (whole (.ofNat tokens)))) :=
      ⟨hread.insert, _, get_insert_self hread, hchanged⟩
    dsimp only
    rw [assign_of_get _ hread hconfig', assign_value hobject']
    exact ⟨_, rfl, fun body hbody ↦ Except.ok.inj hbody ▸ hpayload.asks htokens⟩

end Vidarax.Gemini
