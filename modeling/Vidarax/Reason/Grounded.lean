import Vidarax.Base.Result
import Vidarax.Reason.Grounding

/-!
# Moments are grounded

Package `vidarax-api`, `semantic_infer.rs` 1179–1401: what the stages keep of every moment. A speech
moment of the provider takes the times of an observation as they are, so it stays in the window when
that observation ends there.
-/

namespace Vidarax.Reason

open Base

variable {window : MediaWindow} {analysis : AudioAnalysis} {provider : List SemanticMoment}

/-! ### What is read of the provider -/

/-- A moment that is read lies in the window. -/
theorem inWindow_of_parseMoment {value : Json} {moment : SemanticMoment}
    (h : parseMoment window.source_start_ms window.duration_ms value = .ok (some moment)) :
    InWindow window moment := by
  unfold parseMoment at h
  obtain ⟨start, -, h⟩ := bind_eq_ok h
  obtain ⟨stop, -, h⟩ := bind_eq_ok h
  dsimp only at h
  split at h
  · cases h
  · next hlt =>
    obtain ⟨values, -, h⟩ := bind_eq_ok h
    obtain ⟨modalities, -, h⟩ := bind_eq_ok h
    obtain ⟨kind, -, h⟩ := bind_eq_ok h
    obtain ⟨modalities', -, h⟩ := bind_eq_ok h
    obtain ⟨description, -, h⟩ := bind_eq_ok h
    split at h
    · cases h
    · obtain ⟨confidence, -, h⟩ := bind_eq_ok h
      cases h
      exact ⟨Nat.not_le.mp hlt, Nat.min_le_right _ _, rfl, rfl⟩

/-- Moments that are read lie in the window. -/
theorem inWindow_of_parse {value : Json}
    (h : parseSemanticMoments value window.source_start_ms window.duration_ms = .ok provider) :
    ∀ moment ∈ provider, InWindow window moment := by
  unfold parseSemanticMoments at h
  obtain ⟨values, -, h⟩ := bind_eq_ok h
  obtain ⟨moments, hmoments, h⟩ := bind_eq_ok h
  cases h
  intro moment hmoment
  rw [List.mem_mergeSort, List.mem_filterMap] at hmoment
  obtain ⟨found, hfound, rfl⟩ := hmoment
  obtain ⟨value, -, hvalue⟩ := mapM_eq_ok hmoments _ hfound
  exact inWindow_of_parseMoment hvalue

/-! ### What is observed -/

/-- Moments of observations lie in the window. -/
theorem inWindow_of_audioMoments {moment : SemanticMoment}
    (h : moment ∈ audioMoments analysis window.source_start_ms window.source_end_ms) :
    InWindow window moment ∧ moment.modalities = [.audio] := by
  unfold audioMoments at h
  rw [List.mem_filterMap] at h
  obtain ⟨observation, -, h⟩ := h
  unfold audioMoment at h
  dsimp only at h
  split at h
  · cases h
  · next hlt =>
    cases h
    exact ⟨⟨Nat.not_le.mp hlt, Nat.min_le_right _ _, rfl, rfl⟩, rfl⟩

/-- Observations that are checked take time. -/
theorem start_lt_of_valid (h : validateAnalysis analysis = .ok ()) :
    ∀ observation ∈ analysis.observations,
      observation.start_offset_ms < observation.end_offset_ms := by
  intro observation hmem
  unfold validateAnalysis at h
  split at h
  · cases h
  · obtain ⟨-, -, h⟩ := bind_eq_ok h
    have hvalid := forM_eq_ok h observation hmem
    unfold validateObservation at hvalid
    split at hvalid
    · cases hvalid
    · next hnot =>
      rw [not_or] at hnot
      exact Nat.not_le.mp hnot.1

/-! ### Support -/

/-- The largest is one of them. -/
theorem mem_of_maxBy {α : Type} {cmp : α → α → Ordering} {xs : List α} {x : α}
    (h : maxBy cmp xs = some x) : x ∈ xs := by
  have hfold (best : α) (xs : List α) :
      xs.foldl (fun best y ↦ if cmp best y = .gt then best else y) best ∈ best :: xs := by
    induction xs generalizing best with
    | nil => exact List.mem_cons_self
    | cons y ys ih =>
      rw [List.foldl_cons]
      split
      · rcases List.mem_cons.mp (ih best) with he | hmem
        · rw [he]
          exact List.mem_cons_self
        · exact List.mem_cons_of_mem _ (List.mem_cons_of_mem _ hmem)
      · exact List.mem_cons_of_mem _ (ih y)
  cases xs with
  | nil => cases h
  | cons y ys =>
    cases h
    exact hfold y ys

/-- The speech for an interval supports it. -/
theorem mem_of_speechFor {start stop : Nat} {observation : AudioObservation}
    (h : speechFor analysis start stop = some observation) :
    observation ∈ supportedBy analysis true start stop :=
  List.mem_of_mem_filter (mem_of_maxBy h)

private theorem le_add_of_le_saturatingAdd {a b c : Nat} (h : a ≤ saturatingAdd b c) : a ≤ b + c :=
  h.trans (Nat.min_le_left _ _)

/-- An observation that supports an interval. -/
theorem supports_of_mem {claim : SemanticMoment} {observation : AudioObservation}
    (h : observation ∈ supportedBy analysis (claim.kind = .speech) claim.start_offset_ms
      claim.end_offset_ms) :
    observation ∈ analysis.observations ∧ Supports claim observation := by
  unfold supportedBy at h
  rw [List.mem_filter, List.mem_filter] at h
  obtain ⟨⟨hmem, hnear⟩, hsort⟩ := h
  obtain ⟨-, hnear⟩ := of_decide_eq_true hnear
  obtain ⟨hbefore, hafter⟩ := of_decide_eq_true hnear
  refine ⟨hmem, le_add_of_le_saturatingAdd hbefore, le_add_of_le_saturatingAdd hafter, ?_⟩
  by_cases hspeech : claim.kind = .speech
  · simp only [hspeech, decide_true, if_true] at hsort ⊢
    obtain ⟨hkind, hspoken⟩ := of_decide_eq_true hsort
    obtain ⟨transcript, htranscript⟩ := Option.isSome_iff_exists.mp hspoken
    obtain ⟨htranscript, hblank⟩ := Option.filter_eq_some_iff.mp htranscript
    exact ⟨hkind, transcript, htranscript, of_decide_eq_true hblank⟩
  · simpa [hspeech] using hsort

/-! ### What is left of a claim -/

/-- The speech that a claim takes its times from ends in the window. -/
def EndsInWindow (window : MediaWindow) (analysis : AudioAnalysis) (claim : SemanticMoment) : Prop :=
  claim.kind = .speech → ∀ observation,
    speechFor analysis claim.start_offset_ms claim.end_offset_ms = some observation →
      observation.end_offset_ms ≤ window.duration_ms

/-- The start of the window is read off a moment in it. -/
theorem InWindow.source_start {moment : SemanticMoment} (h : InWindow window moment) :
    moment.start_pts_ms - moment.start_offset_ms = window.source_start_ms := by
  have hlt := h.start_lt
  have hle := h.end_le
  have hend := window.end_le
  rw [h.start_pts, saturatingAdd]
  unfold MediaWindow.duration_ms at hle
  omega

/-- What is left of a claim for speech takes the place of an observation. -/
theorem groundMoment_speech {claim moment : SemanticMoment} (hspeech : claim.kind = .speech)
    (h : groundMoment analysis claim = some moment) :
    ∃ observation transcript, speechFor analysis claim.start_offset_ms claim.end_offset_ms =
        some observation ∧ observation.transcript = some transcript ∧
      moment.kind = .speech ∧
      moment.start_offset_ms = observation.start_offset_ms ∧
      moment.end_offset_ms = observation.end_offset_ms ∧
      moment.start_pts_ms = saturatingAdd (claim.start_pts_ms - claim.start_offset_ms)
        observation.start_offset_ms ∧
      moment.end_pts_ms = saturatingAdd (claim.start_pts_ms - claim.start_offset_ms)
        observation.end_offset_ms ∧
      moment.description = "Speaker: " ++ truncateContext (trimText transcript) 1000 ∧
      moment.intent = some (truncateContext (trimText transcript) 1000) ∧
      claim.modalities.length ≤ moment.modalities.length := by
  unfold groundMoment at h
  have hrequires : momentRequiresAudio claim = true := decide_eq_true (.inr (by rw [hspeech]; rfl))
  rw [if_neg (not_not.mpr hrequires)] at h
  dsimp only at h
  split at h
  · cases h
  · rw [if_pos (decide_eq_true hspeech)] at h
    obtain ⟨observation, hspeechFor, h⟩ := Option.bind_eq_some_iff.mp h
    obtain ⟨transcript, htranscript, rfl⟩ := Option.map_eq_some_iff.mp h
    refine ⟨observation, transcript, hspeechFor, htranscript, hspeech, rfl, rfl, rfl, rfl, rfl, rfl,
      ?_⟩
    dsimp only
    split
    · exact le_rfl
    · rw [List.length_append]
      exact Nat.le_add_right _ _

/-- What is left of another claim keeps its place. -/
theorem groundMoment_other {claim moment : SemanticMoment} (hspeech : claim.kind ≠ .speech)
    (h : groundMoment analysis claim = some moment) :
    moment.kind = claim.kind ∧ moment.start_offset_ms = claim.start_offset_ms ∧
      moment.end_offset_ms = claim.end_offset_ms ∧ moment.start_pts_ms = claim.start_pts_ms ∧
      moment.end_pts_ms = claim.end_pts_ms ∧
      (momentRequiresAudio moment → ∃ observation, observation ∈ supportedBy analysis
        (claim.kind = .speech) claim.start_offset_ms claim.end_offset_ms) := by
  unfold groundMoment at h
  split at h
  · next hnot =>
    cases h
    exact ⟨rfl, rfl, rfl, rfl, rfl, fun hrequires ↦ absurd hrequires hnot⟩
  · dsimp only at h
    split at h
    · cases h
    · next hsome =>
      rw [if_neg fun he ↦ hspeech (of_decide_eq_true he)] at h
      cases h
      refine ⟨rfl, rfl, rfl, rfl, rfl, fun _ ↦ ?_⟩
      exact List.exists_mem_of_ne_nil _ fun hnil ↦ hsome (List.isEmpty_iff.mpr hnil)

/-- What is left of a claim is grounded, and stays in the window when its speech ends there. -/
theorem groundMoment_spec (hvalid : validateAnalysis analysis = .ok ()) {claim moment : SemanticMoment}
    (hclaim : InWindow window claim) (h : groundMoment analysis claim = some moment) :
    Grounds analysis claim moment ∧ (EndsInWindow window analysis claim → InWindow window moment) := by
  by_cases hspeech : claim.kind = .speech
  · obtain ⟨observation, transcript, hchosen, htranscript, hkind, hstart, hstop, hstartPts, hstopPts,
      hdescription, hintent, -⟩ := groundMoment_speech hspeech h
    have hmem : observation ∈ supportedBy analysis (claim.kind = .speech) claim.start_offset_ms
        claim.end_offset_ms := by
      rw [decide_eq_true hspeech]
      exact mem_of_speechFor hchosen
    obtain ⟨hobservation, hsupports⟩ := supports_of_mem hmem
    have htext : (truncateContext (trimText transcript) 1000).toList <+:
        (trimText transcript).toList := by
      rw [truncateContext, String.toList_ofList]
      exact List.take_prefix _ _
    refine ⟨⟨hkind.trans hspeech.symm, fun _ ↦ ⟨observation, hobservation, hsupports⟩, fun _ ↦
      ⟨observation, hobservation, hsupports, transcript, _, htranscript, hintent, hdescription,
        htext⟩⟩, fun hends ↦ ?_⟩
    rw [hclaim.source_start] at hstartPts hstopPts
    refine ⟨?_, ?_, ?_, ?_⟩
    · rw [hstart, hstop]
      exact start_lt_of_valid hvalid observation hobservation
    · rw [hstop]
      exact hends hspeech observation hchosen
    · rw [hstartPts, hstart]
    · rw [hstopPts, hstop]
  · obtain ⟨hkind, hstart, hstop, hstartPts, hstopPts, hsupported⟩ := groundMoment_other hspeech h
    refine ⟨⟨hkind, fun hrequires ↦ ?_, fun he ↦ absurd (hkind ▸ he) hspeech⟩, fun _ ↦ ?_⟩
    · obtain ⟨observation, hmem⟩ := hsupported hrequires
      exact ⟨observation, supports_of_mem hmem⟩
    · exact ⟨by rw [hstart, hstop]; exact hclaim.start_lt, by rw [hstop]; exact hclaim.end_le,
        by rw [hstartPts, hstart, hclaim.start_pts], by rw [hstopPts, hstop, hclaim.end_pts]⟩

/-! ### Duplicates -/

section Duplicates

variable {deduplicated moments : List SemanticMoment} {moment other : SemanticMoment}

theorem mem_of_deduplicateStep (h : other ∈ deduplicateStep deduplicated moment) :
    other ∈ deduplicated ∨ other = moment := by
  unfold deduplicateStep at h
  split at h
  · split at h
    · exact List.mem_or_eq_of_mem_set h
    · exact .inl h
  · exact List.mem_append.mp h |>.imp_right List.mem_singleton.mp

/-- What the loop keeps was there or came. -/
theorem mem_of_foldl_deduplicateStep {sorted : List SemanticMoment}
    (h : other ∈ sorted.foldl deduplicateStep deduplicated) :
    other ∈ deduplicated ∨ other ∈ sorted := by
  induction sorted generalizing deduplicated with
  | nil => exact .inl h
  | cons moment sorted ih =>
    rcases ih h with hstep | hrest
    · rcases mem_of_deduplicateStep hstep with hkept | rfl
      · exact .inl hkept
      · exact .inr List.mem_cons_self
    · exact .inr (List.mem_cons_of_mem _ hrest)

/-- Nothing is added. -/
theorem mem_of_deduplicate (h : other ∈ deduplicateMoments moments) : other ∈ moments := by
  rcases mem_of_foldl_deduplicateStep h with hkept | hsorted
  · exact nomatch hkept
  · exact List.mem_mergeSort.mp hsorted

/-- A moment is kept when no more modalities come. -/
theorem mem_deduplicateStep (h : other ∈ deduplicated)
    (hle : moment.modalities.length ≤ other.modalities.length) :
    other ∈ deduplicateStep deduplicated moment := by
  unfold deduplicateStep
  split
  · next index _ =>
    split
    · next hfewer =>
      obtain ⟨previous, hprevious, hlt⟩ := hfewer
      obtain ⟨i, hi, rfl⟩ := List.getElem_of_mem h
      have hne : index ≠ i := by
        rintro rfl
        obtain rfl := Option.some.inj ((List.getElem?_eq_getElem hi).symm.trans hprevious)
        omega
      rw [← List.getElem_set_of_ne hne moment (by simpa using hi)]
      exact List.getElem_mem _
    · exact h
  · exact List.mem_append_left _ h

/-- A moment is taken when it has more modalities than those before it. -/
theorem mem_deduplicateStep_self
    (hlt : ∀ previous ∈ deduplicated, previous.modalities.length < moment.modalities.length) :
    moment ∈ deduplicateStep deduplicated moment := by
  unfold deduplicateStep
  split
  · next index hfound =>
    obtain ⟨hindex, -⟩ := List.findIdx?_eq_some_iff_getElem.mp hfound
    have hget : deduplicated[index]? = some deduplicated[index] := List.getElem?_eq_getElem hindex
    rw [if_pos ⟨_, hget, hlt _ (List.getElem_mem _)⟩]
    exact List.mem_set hindex moment
  · exact List.mem_append_right _ List.mem_cons_self

/-- A moment with more modalities than all others is not merged into another one. -/
theorem mem_deduplicate_of_most
    (hlt : ∀ previous ∈ moments, previous.modalities.length < moment.modalities.length) :
    moment ∈ deduplicateMoments (moments ++ [moment]) := by
  have hfold (kept sorted : List SemanticMoment) (h : moment ∈ kept)
      (hle : ∀ m ∈ sorted, m.modalities.length ≤ moment.modalities.length) :
      moment ∈ sorted.foldl deduplicateStep kept := by
    induction sorted generalizing kept with
    | nil => exact h
    | cons m sorted ih =>
      rw [List.forall_mem_cons] at hle
      exact ih _ (mem_deduplicateStep h hle.1) hle.2
  have hmem : moment ∈ (moments ++ [moment]).mergeSort momentLe := by simp
  obtain ⟨front, rest, hsplit⟩ := List.append_of_mem hmem
  have hperm : (front ++ rest).Perm moments := by
    have hall := List.mergeSort_perm (moments ++ [moment]) momentLe
    rw [hsplit] at hall
    have hcons := (List.perm_middle.symm.trans hall).trans List.perm_append_comm
    exact hcons.cons_inv
  have hless : ∀ m ∈ front ++ rest, m.modalities.length < moment.modalities.length :=
    fun m hm ↦ hlt m (hperm.mem_iff.mp hm)
  rw [List.forall_mem_append] at hless
  unfold deduplicateMoments
  rw [hsplit, List.foldl_append, List.foldl_cons]
  refine hfold _ _ (mem_deduplicateStep_self fun previous hprevious ↦ ?_)
    fun m hm ↦ (hless.2 m hm).le
  rcases mem_of_foldl_deduplicateStep hprevious with h | h
  · exact nomatch h
  · exact hless.1 _ h

end Duplicates

/-! ### All stages -/

/-- What is asked of the moments of a window whose audio was analyzed: each lies in the window with
the times of the source, and is a local moment or what is left of a claim of the provider. -/
def AllGrounded (window : MediaWindow) (analysis : AudioAnalysis)
    (provider : List SemanticMoment) : Prop :=
  ∀ local_audio_required,
    ∀ moment ∈ semanticMoments window (some analysis) local_audio_required provider,
      InWindow window moment ∧
        (moment ∈ audioMoments analysis window.source_start_ms window.source_end_ms ∨
          ∃ claim ∈ provider, Grounds analysis claim moment)

/-- Moments are grounded when the speech for the claims ends in the window. -/
theorem allGrounded_of_ends (hvalid : validateAnalysis analysis = .ok ())
    (hprovider : ∀ claim ∈ provider, InWindow window claim)
    (hends : ∀ claim ∈ provider, EndsInWindow window analysis claim) :
    AllGrounded window analysis provider := by
  intro local_audio_required moment hmoment
  rcases List.mem_append.mp (mem_of_deduplicate hmoment) with hlocal | hprovided
  · exact ⟨(inWindow_of_audioMoments hlocal).1, .inl hlocal⟩
  · obtain ⟨claim, hclaim, hground⟩ := List.mem_filterMap.mp hprovided
    obtain ⟨hgrounds, hwindow⟩ := groundMoment_spec hvalid (hprovider claim hclaim) hground
    exact ⟨hwindow (hends claim hclaim), .inr ⟨claim, hclaim, hgrounds⟩⟩

/-- A claim for speech, as a provider writes it. -/
def speechClaim (start stop : UInt64) : Json :=
  .object [("start_offset_ms", .number (.posInt start)), ("end_offset_ms", .number (.posInt stop)),
    ("modalities", .array [.string "video", .string "audio"]), ("kind", .string "speech"),
    ("description", .string "A greeting"), ("confidence", .number (.posInt 1))]

/-- An answer with this claim. -/
def speechAnswer (start stop : UInt64) : Json :=
  .object [("moments", .array [speechClaim start stop])]

theorem parseMoment_speechClaim {start stop : UInt64} (source_start_ms : Nat) {duration_ms : Nat}
    (hlt : start < stop) (hle : stop.toNat ≤ duration_ms) :
    ∃ claim, parseMoment source_start_ms duration_ms (speechClaim start stop) = .ok (some claim) ∧
      claim.kind = .speech ∧ claim.start_offset_ms = start.toNat ∧
      claim.end_offset_ms = stop.toNat ∧ claim.modalities.length = 2 := by
  have hlt' : start.toNat < stop.toNat := UInt64.lt_iff_toNat_lt.mp hlt
  have hstart : min start.toNat duration_ms = start.toNat := by omega
  have hstop : min (max stop.toNat start.toNat) duration_ms = stop.toNat := by omega
  have hmodalities : parseModalities [.string "video", .string "audio"] = .ok [.video, .audio] := by
    decide +kernel
  have hkind : normalizeMomentKind "speech" = .speech := by decide +kernel
  have hdescription : trimText "A greeting" ≠ "" := by decide +kernel
  have hconfidence : (some (F64.ofInt (1 : UInt64).toNat)).filter F64.isFinite =
      some (F64.ofInt 1) := by decide +kernel
  have hdefault : defaultModalities .speech [.video, .audio] = .ok [.video, .audio] := rfl
  unfold parseMoment speechClaim
  simp only [Json.get, List.lookup_cons, Json.asU64, required, Json.asArray, Json.asStr, Json.asF64,
    Option.bind_some, beq_self_eq_true, String.reduceBEq, ok_bind, hstart, hstop, hmodalities,
    hkind, hdefault, hconfidence, if_neg (Nat.not_le.mpr hlt'), if_neg hdescription]
  exact ⟨_, rfl, rfl, rfl, rfl, rfl⟩

/-- It is read as one claim of both modalities. -/
theorem parse_speechAnswer {start stop : UInt64} (hlt : start < stop)
    (hle : stop.toNat ≤ window.duration_ms) :
    ∃ claim, parseSemanticMoments (speechAnswer start stop) window.source_start_ms
        window.duration_ms = .ok [claim] ∧
      claim.kind = .speech ∧ claim.start_offset_ms = start.toNat ∧
      claim.end_offset_ms = stop.toNat ∧ claim.modalities.length = 2 := by
  obtain ⟨claim, hclaim, hfields⟩ := parseMoment_speechClaim window.source_start_ms hlt hle
  refine ⟨claim, ?_, hfields⟩
  have hvalues : (Json.get "moments" (speechAnswer start stop)).bind Json.asArray =
      some [speechClaim start stop] := by
    simp only [speechAnswer, Json.get, List.lookup_cons, beq_self_eq_true, Option.bind_some,
      Json.asArray]
  have hmap : ([speechClaim start stop].take MAX_MULTIMODAL_MOMENTS).mapM
      (parseMoment window.source_start_ms window.duration_ms) = .ok [some claim] := by
    have htake : [speechClaim start stop].take MAX_MULTIMODAL_MOMENTS = [speechClaim start stop] :=
      rfl
    rw [htake, List.mapM_cons, hclaim]
    rfl
  have hkept : [some claim].filterMap id = [claim] := rfl
  rw [parseSemanticMoments, hvalues, required, ok_bind, hmap, ok_bind, hkept,
    List.mergeSort_singleton]
  rfl

/-- Speech that runs over the window is taken over. -/
theorem groundMoment_of_speechFor {claim : SemanticMoment} (hspeech : claim.kind = .speech)
    {observation : AudioObservation}
    (h : speechFor analysis claim.start_offset_ms claim.end_offset_ms = some observation) :
    ∃ moment, groundMoment analysis claim = some moment := by
  have hmem := mem_of_speechFor h
  obtain ⟨transcript, htranscript⟩ : ∃ transcript, observation.transcript = some transcript := by
    rw [← decide_eq_true hspeech] at hmem
    have hsort := (supports_of_mem hmem).2.sort
    rw [if_pos hspeech] at hsort
    exact ⟨_, hsort.2.choose_spec.1⟩
  have hrequires : momentRequiresAudio claim = true := decide_eq_true (.inr (by rw [hspeech]; rfl))
  have hsome : ¬ (supportedBy analysis true claim.start_offset_ms
      claim.end_offset_ms).isEmpty = true := by
    rw [List.isEmpty_iff]
    exact List.ne_nil_of_mem hmem
  unfold groundMoment
  rw [if_neg (not_not.mpr hrequires)]
  simp only [hspeech, decide_true, if_neg hsome, if_true, h, Option.bind_some, htranscript,
    Option.map_some]
  exact ⟨_, rfl⟩

/-- Speech that is chosen for a part of the window is left with its own end: a claim of both
modalities takes it over and is not merged into a local moment. -/
theorem exists_kept_speech {start stop : Nat} (hlt : start < stop) (hle : stop ≤ window.duration_ms)
    {observation : AudioObservation} (hchosen : speechFor analysis start stop = some observation) :
    ∃ value provider moment,
      parseSemanticMoments value window.source_start_ms window.duration_ms = .ok provider ∧
      moment ∈ semanticMoments window (some analysis) true provider ∧
      moment.end_offset_ms = observation.end_offset_ms := by
  have hstop : stop < 2 ^ 64 := by
    have hend := window.end_le
    unfold MediaWindow.duration_ms at hle
    unfold U64_MAX at hend
    omega
  have hstart64 : (UInt64.ofNat start).toNat = start :=
    UInt64.toNat_ofNat_of_lt' (Nat.lt_trans hlt hstop)
  have hstop64 : (UInt64.ofNat stop).toNat = stop := UInt64.toNat_ofNat_of_lt' hstop
  have hlt64 : UInt64.ofNat start < UInt64.ofNat stop := by
    rw [UInt64.lt_iff_toNat_lt, hstart64, hstop64]
    exact hlt
  obtain ⟨claim, hparse, hspeech, hclaimStart, hclaimStop, hmodalities⟩ :=
    parse_speechAnswer hlt64 (hstop64.trans_le hle)
  rw [hstart64] at hclaimStart
  rw [hstop64] at hclaimStop
  rw [← hclaimStart, ← hclaimStop] at hchosen
  obtain ⟨moment, hground⟩ := groundMoment_of_speechFor hspeech hchosen
  obtain ⟨chosen, -, hchosen', -, -, -, hmomentStop, -, -, -, -, hlength⟩ :=
    groundMoment_speech hspeech hground
  obtain rfl := Option.some.inj (hchosen.symm.trans hchosen')
  refine ⟨_, [claim], moment, hparse, ?_, hmomentStop⟩
  have hprovided : groundProviderMoments [claim] (some analysis) true = [moment] := by
    rw [groundProviderMoments, List.filterMap_cons_some hground, List.filterMap_nil]
  rw [semanticMoments, hprovided]
  refine mem_deduplicate_of_most fun previous hprevious ↦ ?_
  rw [(inWindow_of_audioMoments hprevious).2]
  exact Nat.lt_of_lt_of_le (by decide) (hmodalities ▸ hlength)

/-- Every moment is grounded when the speech that is chosen for the claims ends in the window; for
every answer of the provider this is so exactly when the speech for every part of the window ends in
the window; and where local audio is missing no moment needs audio. -/
theorem moments_grounded (window : MediaWindow) (analysis : AudioAnalysis)
    (hvalid : validateAnalysis analysis = .ok ()) :
    (∀ value provider,
      parseSemanticMoments value window.source_start_ms window.duration_ms = .ok provider →
      (∀ claim ∈ provider, EndsInWindow window analysis claim) →
        AllGrounded window analysis provider) ∧
    ((∀ value provider,
      parseSemanticMoments value window.source_start_ms window.duration_ms = .ok provider →
        AllGrounded window analysis provider) ↔
      ∀ start stop, start < stop → stop ≤ window.duration_ms → ∀ observation,
        speechFor analysis start stop = some observation →
          observation.end_offset_ms ≤ window.duration_ms) ∧
    ∀ value provider,
      parseSemanticMoments value window.source_start_ms window.duration_ms = .ok provider →
        ∀ moment ∈ semanticMoments window none true provider,
          InWindow window moment ∧ momentRequiresAudio moment = false := by
  refine ⟨fun value provider hparse ↦ allGrounded_of_ends hvalid (inWindow_of_parse hparse),
    ⟨fun h start stop hlt hle observation hchosen ↦ ?_, fun h value provider hparse ↦ ?_⟩, ?_⟩
  · obtain ⟨value, provider, moment, hparse, hkept, hstop⟩ := exists_kept_speech hlt hle hchosen
    rw [← hstop]
    exact (h value provider hparse true moment hkept).1.end_le
  · have hprovider := inWindow_of_parse hparse
    refine allGrounded_of_ends hvalid hprovider fun claim hclaim _ observation hchosen ↦ ?_
    exact h _ _ (hprovider claim hclaim).start_lt (hprovider claim hclaim).end_le observation hchosen
  · intro value provider hparse moment hmoment
    have hmem := mem_of_deduplicate hmoment
    rw [Option.elim_none, List.nil_append, groundProviderMoments, if_pos rfl, List.mem_filter] at hmem
    exact ⟨inWindow_of_parse hparse moment hmem.1, by simpa using hmem.2⟩

/-! ### Speech over the end of a window -/

/-- The first second of a source. -/
def firstSecond : MediaWindow := ⟨0, 1000, by decide, by decide⟩

/-- An analysis with one speech from 800 ms on. -/
def speechUntil (end_offset_ms : Nat) : AudioAnalysis where
  models := []
  observations := [⟨800, end_offset_ms, "speech", "speech", F32.one, "asr", some "hello", none, none⟩]

theorem moments_grounded_sample : AllGrounded firstSecond (speechUntil 900) [] :=
  have hparse : parseSemanticMoments (.object [("moments", .array [])]) firstSecond.source_start_ms
      firstSecond.duration_ms = .ok [] := by
    simp [parseSemanticMoments, Json.get, Json.asArray, required, ok_bind, pure, Except.pure]
  (moments_grounded firstSecond (speechUntil 900) (by decide +kernel)).1 _ [] hparse
    fun _ h ↦ nomatch h

/-- Speech that ends half a second after its window is left with that end. -/
theorem speech_over_window :
    validateAnalysis (speechUntil 1500) = .ok () ∧
      ∃ value provider, parseSemanticMoments value firstSecond.source_start_ms
          firstSecond.duration_ms = .ok provider ∧
        ∃ moment ∈ semanticMoments firstSecond (some (speechUntil 1500)) true provider,
          firstSecond.duration_ms < moment.end_offset_ms := by
  refine ⟨by decide +kernel, ?_⟩
  have hchosen : ∃ observation, speechFor (speechUntil 1500) 800 1000 = some observation ∧
      observation.end_offset_ms = 1500 := ⟨_, rfl, rfl⟩
  obtain ⟨observation, hchosen, hend⟩ := hchosen
  have hle : 1000 ≤ firstSecond.duration_ms := by decide
  obtain ⟨value, provider, moment, hparse, hkept, hstop⟩ :=
    exists_kept_speech (by decide) hle hchosen
  refine ⟨value, provider, hparse, moment, hkept, ?_⟩
  rw [hstop, hend]
  decide

end Vidarax.Reason
