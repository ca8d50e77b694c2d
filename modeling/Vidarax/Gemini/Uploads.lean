import Vidarax.Gemini.Bodies
import Vidarax.Gemini.Transcript

/-!
# Uploads of a call

Package `vidarax-core`, `gemini.rs:144–347`. While a payload is built nothing is called. What has
been uploaded is deleted at once or told to the caller.
-/

namespace Vidarax.Gemini

open Base Json Program

variable {codec : Codec} {fuel deadline : Nat} {xs ys : Transcript}

/-- A function that uploads files: its value tells them, and after an error they are deleted. -/
structure Handles {α : Type} (codec : Codec) (fuel deadline : Nat) (kept : α → List String)
    (xs : Transcript) (result : Except Stop α) : Prop where
  returns : Returns result
  inTime : InTime fuel deadline xs (Unfinished result)
  generated : generated xs = []
  value : ∀ a, result = .ok a → deleted xs = [] ∧ uploaded codec xs = kept a
  error : ∀ e, result = .error (.error e) → deleted xs = uploaded codec xs

/-- An error after nothing. -/
theorem Still.handles_error {α : Type} {kept : α → List String} (h : Still codec xs)
    (e : ProviderError) : Handles codec fuel deadline kept xs (.error (.error e)) where
  returns := trivial
  inTime := inTime_of_finished id
  generated := h.generated
  value := nofun
  error _ _ := h.deleted.trans h.uploaded.symm

/-- A value after nothing. -/
theorem Still.handles_ok {α : Type} (h : Still codec xs) (a : α) :
    Handles codec fuel deadline (fun _ ↦ []) xs (.ok a) where
  returns := trivial
  inTime := inTime_of_finished id
  generated := h.generated
  value _ _ := ⟨h.deleted, h.uploaded⟩
  error := nofun

/-- The error of a part is that of the whole. -/
theorem Handles.error_of {α β : Type} {kept : α → List String} {kept' : β → List String} {e : Stop}
    (h : Handles codec fuel deadline kept xs (.error e)) :
    Handles codec fuel deadline kept' xs (.error e) where
  returns := returns_error h.returns
  inTime := h.inTime.mono unfinished_error
  generated := h.generated
  value := nofun
  error e' he' := h.error e' (congrArg Except.error (Except.error.inj he'))

theorem Handles.after {α : Type} {kept : α → List String} {result : Except Stop α}
    (hx : Still codec xs) (h : Handles codec fuel deadline kept ys result) :
    Handles codec fuel deadline kept (xs ++ ys) result := by
  obtain ⟨hgenerated, huploaded, hdeleted⟩ := observed_append_of_still hx ys
  constructor
  · exact h.returns
  · exact h.inTime.append id xs
  · rw [hgenerated, h.generated]
  · intro a ha
    rw [hdeleted, huploaded]
    exact h.value a ha
  · intro e he
    rw [hdeleted, huploaded, h.error e he]

theorem Handles.still {α : Type} {a : α}
    (h : Handles codec fuel deadline (fun _ ↦ []) xs (.ok a)) : Still codec xs :=
  ⟨h.generated, (h.value a rfl).2, (h.value a rfl).1⟩

/-- The response to an upload tells the name of the file. -/
theorem uploaded_put {url mediaType : String} {bytes : Bytes} {timeout : Nat}
    {response : Response} {read : Except ProviderError (String × String)}
    (hread : readUpload codec response = read) :
    uploaded codec [⟨.uploadPut url mediaType bytes timeout, .ok response⟩] =
      (read.toOption.map (·.2)).toList := by
  have hname : uploadedName codec ⟨.uploadPut url mediaType bytes timeout, .ok response⟩ =
      read.toOption.map (·.2) := congrArg (·.toOption.map (·.2)) hread
  cases read with
  | error e => exact List.filterMap_cons_none hname
  | ok file => exact List.filterMap_cons_some hname

theorem startUpload_ends (fuel byteCount : Nat) (mediaType : String) :
    (startUpload byteCount mediaType deadline).Ends (Handles codec fuel deadline fun _ ↦ []) := by
  refine ends_remainingUploadTime (fun now ↦ Still.handles_error ⟨rfl, rfl, rfl⟩ _)
    fun now _ answer ↦ ?_
  have hstill : Still codec [⟨.now, now⟩,
      ⟨.uploadStart byteCount mediaType (deadline - now), answer⟩] := ⟨rfl, rfl, rfl⟩
  dsimp only
  split
  · exact ends_fail (hstill.handles_error _)
  split
  · exact ends_fail (hstill.handles_error _)
  split
  · exact ends_fail (hstill.handles_error _)
  · exact ends_fail (hstill.handles_error _)
  · exact ends_pure (hstill.handles_ok _)

theorem finishUpload_ends (fuel : Nat) (url mediaType : String) (bytes : Bytes) :
    (finishUpload codec url mediaType bytes deadline).Ends
      (Handles codec fuel deadline fun file ↦ [file.2]) := by
  refine ends_remainingUploadTime (fun now ↦ Still.handles_error ⟨rfl, rfl, rfl⟩ _)
    fun now _ answer ↦ ?_
  cases answer with
  | error e => exact ends_fail (Still.handles_error ⟨rfl, rfl, rfl⟩ _)
  | ok response =>
    dsimp only
    cases hread : readUpload codec response with
    | error e =>
      have hstill : Still codec [⟨.now, now⟩,
          ⟨.uploadPut url mediaType bytes (deadline - now), .ok response⟩] :=
        ⟨rfl, uploaded_put hread, rfl⟩
      exact ends_fail (hstill.handles_error _)
    | ok file =>
      refine ends_pure ⟨trivial, inTime_of_finished id, rfl, fun a ha ↦ ⟨rfl, ?_⟩, nofun⟩
      rw [← Except.ok.inj ha]
      exact uploaded_put hread

/-- A file whose upload has not become active is deleted. -/
theorem uploadFile_ends (video : InferenceVideo) :
    (uploadFile codec fuel video deadline).Ends
      (Handles codec fuel deadline fun file ↦ [file.2]) := by
  rw [uploadFile]
  cases uploadBody codec video with
  | error e => exact ends_fail (still_nil.handles_error e)
  | ok bytes =>
    refine (startUpload_ends fuel bytes.length video.mediaType).bind (fun xs e h ↦ h.error_of) ?_
    intro xs url hstarted
    refine Ends.mono ?_ fun ys result ↦ Handles.after hstarted.still
    refine (finishUpload_ends fuel url video.mediaType bytes).bind (fun xs e h ↦ h.error_of) ?_
    rintro ys ⟨uri, fileName⟩ hfinished
    obtain ⟨hdeleted, huploaded⟩ := hfinished.value _ rfl
    refine ends_catching (pollFileActive_ends codec fileName deadline fuel) ?_ ?_ ?_ ?_
    · rintro zs _ ⟨hstill, -, -⟩
      refine ends_pure ⟨trivial, inTime_of_finished id, ?_, fun a ha ↦ ?_, nofun⟩
      · simp [hfinished.generated, hstill.generated]
      · simp [hdeleted, huploaded, hstill.deleted, hstill.uploaded, ← Except.ok.inj ha]
    · rintro zs e ⟨hstill, -, -⟩ answer
      refine ends_fail ⟨trivial, inTime_of_finished id, ?_, nofun, fun e' _ ↦ ?_⟩
      · rw [generated_append, generated_append, hfinished.generated, hstill.generated]
        rfl
      · rw [deleted_append, deleted_append, uploaded_append, uploaded_append, hdeleted, huploaded,
          hstill.deleted, hstill.uploaded]
        rfl
    · rintro zs ⟨-, hreturns, -⟩
      exact hreturns.elim
    · rintro zs ⟨hstill, -, htime⟩
      refine ⟨trivial, htime.append id ys, ?_, nofun, nofun⟩
      rw [generated_append, hfinished.generated, hstill.generated, List.append_nil]

/-- A function that tells, also with an error, the files that are uploaded and not deleted. -/
structure Collects {α : Type} (codec : Codec) (fuel deadline : Nat) (before : List String)
    (xs : Transcript) (result : Except Stop (Except ProviderError α × List String)) : Prop where
  returns : Returns result
  inTime : InTime fuel deadline xs (Unfinished result)
  generated : generated xs = []
  caught : ∀ e, result ≠ .error (.error e)
  value : ∀ r fileNames, result = .ok (r, fileNames) → ∃ more, fileNames = before ++ more ∧
    uploaded codec xs = more ++ deleted xs ∧ (r.isOk → deleted xs = [])

/-- What is made of the value does not matter, if an error stays one. -/
theorem Collects.of_value {α β : Type} {before fileNames : List String}
    {r : Except ProviderError α} {r' : Except ProviderError β}
    (h : Collects codec fuel deadline before xs (.ok (r, fileNames)))
    (hok : r'.isOk → r.isOk) : Collects codec fuel deadline before xs (.ok (r', fileNames)) where
  returns := trivial
  inTime := inTime_of_finished id
  generated := h.generated
  caught := nofun
  value := by
    rintro r'' fileNames' hvalue
    obtain ⟨rfl, rfl⟩ := Prod.mk.inj (Except.ok.inj hvalue)
    obtain ⟨more, hnames, huploaded, hdeleted⟩ := h.value r fileNames rfl
    exact ⟨more, hnames, huploaded, fun hr ↦ hdeleted (hok hr)⟩

/-- The error of a part is that of the whole. -/
theorem Collects.error_of {α β : Type} {before : List String} {e : Stop}
    (h : Collects codec fuel deadline before xs
      (.error e : Except Stop (Except ProviderError α × List String))) :
    Collects codec fuel deadline before xs
      (.error e : Except Stop (Except ProviderError β × List String)) where
  returns := returns_error h.returns
  inTime := h.inTime.mono unfinished_error
  generated := h.generated
  caught e' he' := h.caught e' (congrArg Except.error (Except.error.inj he'))
  value := nofun

/-- After an upload the file is one of those that are told. -/
theorem Collects.after_upload {α : Type} {before : List String} {file : String × String}
    {result : Except Stop (Except ProviderError α × List String)}
    (hx : Handles codec fuel deadline (fun file : String × String ↦ [file.2]) xs (.ok file))
    (hy : Collects codec fuel deadline (before ++ [file.2]) ys result) :
    Collects codec fuel deadline before (xs ++ ys) result where
  returns := hy.returns
  inTime := hy.inTime.append id xs
  generated := by rw [generated_append, hx.generated, hy.generated, List.append_nil]
  caught := hy.caught
  value := by
    intro r fileNames hvalue
    obtain ⟨hdeleted, huploaded⟩ := hx.value file rfl
    obtain ⟨more, hnames, hkept, hok⟩ := hy.value r fileNames hvalue
    refine ⟨file.2 :: more, ?_, ?_, fun hr ↦ ?_⟩
    · rw [hnames, List.append_assoc, List.singleton_append]
    · rw [uploaded_append, deleted_append, huploaded, hdeleted, hkept]
      rfl
    · rw [deleted_append, hdeleted, hok hr, List.append_nil]

theorem isOk_map {α β : Type} {r : Except ProviderError α} {f : α → β} (h : (r.map f).isOk) :
    r.isOk := by
  cases r with
  | ok a => rfl
  | error e => exact h

/-- One video after another is uploaded or sent inline. -/
theorem videoParts_ends (videos : List InferenceVideo) (uploadedFiles : List String) :
    (videoParts codec fuel deadline videos uploadedFiles).Ends
      (Collects codec fuel deadline uploadedFiles) := by
  induction videos generalizing uploadedFiles with
  | nil =>
    refine ends_pure ⟨trivial, inTime_of_finished id, rfl, nofun, fun r fileNames hvalue ↦ ?_⟩
    exact ⟨[], by simpa using (Prod.mk.inj (Except.ok.inj hvalue)).2.symm, rfl, fun _ ↦ rfl⟩
  | cons video videos ih =>
    rw [videoParts]
    split
    · refine ends_catching (uploadFile_ends video) ?_ ?_ ?_ ?_
      · rintro xs ⟨uri, fileName⟩ hfile
        refine (ih (uploadedFiles ++ [fileName])).bind ?_ ?_
        · exact fun ys e h ↦ (Collects.after_upload hfile h).error_of
        · rintro ys ⟨parts, fileNames⟩ h
          exact ends_pure (by simpa using (Collects.after_upload hfile h).of_value isOk_map)
      · intro xs e hfile
        refine ends_pure ⟨trivial, inTime_of_finished id, ?_, nofun, fun r fileNames hvalue ↦ ?_⟩
        · rw [List.append_nil, hfile.generated]
        · obtain ⟨rfl, rfl⟩ := Prod.mk.inj (Except.ok.inj hvalue)
          exact ⟨[], by simp, by simpa using (hfile.error e rfl).symm, nofun⟩
      · exact fun xs hfile ↦ hfile.returns.elim
      · exact fun xs hfile ↦ ⟨trivial, hfile.inTime, hfile.generated, nofun, nofun⟩
    · refine (ih uploadedFiles).bind (fun xs e h ↦ h.error_of) fun xs a h ↦ ?_
      exact ends_pure (by simpa using h.of_value isOk_map)

theorem buildPayloadWithMaxTokens_ends (request : InferenceRequest) (maxTokens : Nat)
    (model : String) :
    (buildPayloadWithMaxTokens codec fuel request maxTokens model deadline).Ends fun xs result ↦
      Collects codec fuel deadline [] xs result ∧
        ∀ body fileNames, result = .ok (.ok body, fileNames) →
          ∃ json, body = codec.print json ∧ IsPayload maxTokens json := by
  rw [buildPayloadWithMaxTokens]
  refine (videoParts_ends request.inputVideos []).bind (fun xs e h ↦ ⟨h.error_of, nofun⟩) ?_
  rintro xs ⟨parts, uploadedFiles⟩ h
  refine ends_pure ⟨?_, fun body fileNames hvalue ↦ ?_⟩
  · refine (List.append_nil xs).symm ▸ h.of_value fun hok ↦ ?_
    cases parts with
    | ok parts => rfl
    | error e => exact hok
  · have hbody := (Prod.mk.inj (Except.ok.inj hvalue)).1
    cases parts with
    | error e => exact nomatch hbody
    | ok parts =>
      cases hpayload : payload codec request maxTokens model
          (request.inputImages.map (fun image ↦ inlinePart image.mediaType image.dataBase64) ++
            parts) with
      | error e =>
        rw [Except.bind, hpayload] at hbody
        exact nomatch hbody
      | ok json =>
        rw [Except.bind, hpayload] at hbody
        exact ⟨json, (Except.ok.inj hbody).symm, isPayload_payload hpayload⟩

end Vidarax.Gemini
