import Vidarax.Base.Result
import Vidarax.Trigger.Meaning

/-!
# The compiler reads the rule of its source

Package `vidarax-contracts`, `crates/vidarax-contracts/src/triggers.rs:522–617,680–784`.
The draft of an accepted source holds the conditions, the edge, the cooldown and the
actions of the rule.
-/

namespace Vidarax.Trigger

open Vidarax.Base

variable {parseF32 : String → Option F32} {line : Nat}

/-! ### Fields -/

theorem parsed_eq_ok {α : Type} {value : Option α} {message : String} {a : α}
    (h : parsed value line message = .ok a) : value = some a := by
  unfold parsed at h
  split at h
  · exact congrArg some (Except.ok.inj h)
  · cases h

theorem signalOfKind_eq_ok {kind args : String} {signal : TriggerSignal}
    (h : signalOfKind kind args line = .ok signal) : signalOfKind kind args 0 = .ok signal := by
  unfold signalOfKind at h ⊢
  split at h
  · next hk => rwa [if_pos hk]
  · next hk =>
    rw [if_neg hk]
    split at h
    · next hg =>
      rw [if_pos hg]
      split at h
      · cases h
      · exact h
    · next hg =>
      rw [if_neg hg]
      split at h
      · next hd =>
        rw [if_pos hd]
        split at h
        · cases h
        · exact h
      · next hd =>
        rw [if_neg hd]
        split at h
        · next ha => rwa [if_pos ha]
        · cases h

theorem signalOf_of_parseSignal {field : String} {signal : TriggerSignal}
    (h : parseSignal field line = .ok signal) : signalOf field = some signal := by
  unfold parseSignal at h
  rw [signalOf, parseSignal]
  split at h
  · exact congrArg some (Except.ok.inj h)
  · split at h
    · cases h
    · simp only [signalOfKind_eq_ok h, accepted]

theorem durationOf_of_parseDurationMs {field : String} {duration : UInt64}
    (h : parseDurationMs field line = .ok duration) : durationOf field = some duration := by
  obtain ⟨n, hn, h⟩ := bind_eq_ok h
  rw [durationOf, parseDurationMs, parsed_eq_ok hn]
  exact congrArg some (Except.ok.inj h)

theorem namedChannel_of_channelOf {field : String} {channel : ActionChannel}
    (h : channelOf field line = .ok channel) : namedChannel field = some channel := by
  unfold channelOf at h
  rw [namedChannel, channelOf]
  split at h
  · next hw =>
    rw [if_pos hw]
    exact congrArg some (Except.ok.inj h)
  · next hw =>
    rw [if_neg hw]
    split at h
    · next hl =>
      rw [if_pos hl]
      exact congrArg some (Except.ok.inj h)
    · cases h

/-! ### Statements -/

section Other

variable {keyword : String} {args : List String}

theorem conditionOf_other (hw : keyword ≠ "when") (ha : keyword ≠ "and") :
    conditionOf parseF32 (keyword :: args) = none := by
  unfold conditionOf
  split
  · next heq =>
    obtain ⟨rfl, -⟩ := List.cons.inj heq
    rw [if_neg (not_or.mpr ⟨hw, ha⟩)]
  · next heq =>
    obtain ⟨rfl, -⟩ := List.cons.inj heq
    rw [if_neg fun h ↦ (not_or.mpr ⟨hw, ha⟩) h.1]
  · rfl

theorem cooldownOf_other (h : keyword ≠ "cooldown") : cooldownOf (keyword :: args) = none := by
  unfold cooldownOf
  split
  · next heq =>
    obtain ⟨rfl, -⟩ := List.cons.inj heq
    rw [if_neg h]
  · rfl

theorem actionOf_other (he : keyword ≠ "emit") (hc : keyword ≠ "capture")
    (hn : keyword ≠ "notify") : actionOf (keyword :: args) = none := by
  unfold actionOf
  split
  · next heq =>
    obtain ⟨rfl, -⟩ := List.cons.inj heq
    rw [if_neg he, if_neg fun h ↦ hc h.1, if_neg hn]
  · next heq =>
    obtain ⟨rfl, -⟩ := List.cons.inj heq
    rw [if_neg fun h ↦ hc h.1]
  · rfl

end Other

theorem conditionOf_of_parseCondition {keyword : String} {args : List String} {c : Condition}
    (hk : keyword = "when" ∨ keyword = "and")
    (h : parseCondition parseF32 (keyword :: args) line = .ok c) :
    conditionOf parseF32 (keyword :: args) = some c := by
  unfold parseCondition at h
  split at h
  · next heq =>
    obtain ⟨rfl, rfl⟩ := List.cons.inj heq
    obtain ⟨s, hs, h⟩ := bind_eq_ok h
    obtain ⟨comparison, hc, h⟩ := bind_eq_ok h
    obtain ⟨value, hv, h⟩ := bind_eq_ok h
    simp only [conditionOf, if_pos hk, signalOf_of_parseSignal hs, parsed_eq_ok hc,
      parsed_eq_ok hv]
    exact congrArg some (Except.ok.inj h)
  · next heq =>
    obtain ⟨rfl, rfl⟩ := List.cons.inj heq
    obtain ⟨hfor, h⟩ := guard_eq_ok h
    rw [not_or, not_not, not_not] at hfor
    obtain ⟨s, hs, h⟩ := bind_eq_ok h
    obtain ⟨comparison, hc, h⟩ := bind_eq_ok h
    obtain ⟨value, hv, h⟩ := bind_eq_ok h
    obtain ⟨frames, hf, h⟩ := bind_eq_ok h
    simp only [conditionOf, if_pos (And.intro hk hfor), signalOf_of_parseSignal hs,
      parsed_eq_ok hc, parsed_eq_ok hv, parsed_eq_ok hf]
    exact congrArg some (Except.ok.inj h)
  · cases h

theorem actionOf_of_captureStatement {args : List String} {action : TriggerInstruction}
    (h : captureStatement args line = .ok action) :
    actionOf ("capture" :: args) = some action := by
  unfold captureStatement at h
  split at h
  · split at h
    · next hk =>
      subst hk
      exact congrArg some (Except.ok.inj h)
    · cases h
  · split at h
    · next hk =>
      subst hk
      obtain ⟨b, hb, h⟩ := bind_eq_ok h
      obtain ⟨a, ha, h⟩ := bind_eq_ok h
      simp only [actionOf, durationOf_of_parseDurationMs hb, durationOf_of_parseDurationMs ha]
      exact congrArg some (Except.ok.inj h)
    · cases h
  · cases h

/-- What one statement adds to a draft is what the reading of the statement says. -/
structure Adds (parseF32 : String → Option F32) (fields : List String) (draft draft' : Draft) :
    Prop where
  conditions : draft'.conditions = draft.conditions ++ (conditionOf parseF32 fields).toList
  edge : draft'.edge = (draft.edge || decide (fields = ["edge", "rising"]))
  cooldown : draft'.cooldownMs = (cooldownOf fields).or draft.cooldownMs
  actions : draft'.actions = draft.actions ++ (actionOf fields).toList

/-- A statement that is no condition and no action. -/
theorem adds_neither {keyword : String} {args : List String} {draft draft' : Draft}
    (hw : keyword ≠ "when") (ha : keyword ≠ "and") (he : keyword ≠ "emit")
    (hc : keyword ≠ "capture") (hn : keyword ≠ "notify")
    (hconditions : draft'.conditions = draft.conditions) (hactions : draft'.actions = draft.actions)
    (hedge : draft'.edge = (draft.edge || decide (keyword :: args = ["edge", "rising"])))
    (hcooldown : draft'.cooldownMs = (cooldownOf (keyword :: args)).or draft.cooldownMs) :
    Adds parseF32 (keyword :: args) draft draft' where
  conditions := by rw [conditionOf_other hw ha, hconditions, Option.toList_none, List.append_nil]
  edge := hedge
  cooldown := hcooldown
  actions := by rw [actionOf_other he hc hn, hactions, Option.toList_none, List.append_nil]

/-- A statement that is an action. -/
theorem adds_action {keyword : String} {args : List String} {draft : Draft}
    {action : TriggerInstruction} (hw : keyword ≠ "when") (ha : keyword ≠ "and")
    (he : keyword ≠ "edge") (hc : keyword ≠ "cooldown")
    (haction : actionOf (keyword :: args) = some action) :
    Adds parseF32 (keyword :: args) draft
      { draft with actions := draft.actions ++ [action] } where
  conditions := by rw [conditionOf_other hw ha, Option.toList_none, List.append_nil]
  edge := by simp [he]
  cooldown := by rw [cooldownOf_other hc, Option.none_or]
  actions := by rw [haction, Option.toList_some]

/-- A condition. -/
theorem adds_condition {keyword : String} {args : List String} {draft : Draft} {c : Condition}
    (hk : keyword = "when" ∨ keyword = "and")
    (hc : parseCondition parseF32 (keyword :: args) line = .ok c) :
    Adds parseF32 (keyword :: args) draft
      { draft with conditions := draft.conditions ++ [c] } where
  conditions := by rw [conditionOf_of_parseCondition hk hc, Option.toList_some]
  edge := by rcases hk with rfl | rfl <;> simp
  cooldown := by
    rcases hk with rfl | rfl <;> rw [cooldownOf_other (by decide), Option.none_or]
  actions := by
    rcases hk with rfl | rfl <;>
      rw [actionOf_other (by decide) (by decide) (by decide), Option.toList_none, List.append_nil]

theorem headerStatement_eq_ok {draft draft' : Draft} {args : List String}
    (h : headerStatement draft args line = .ok draft') :
    ∃ header, draft' = { draft with header := some header } := by
  unfold headerStatement at h
  split at h
  · obtain ⟨-, h⟩ := guard_eq_ok h
    obtain ⟨version, -, h⟩ := bind_eq_ok h
    exact ⟨_, (Except.ok.inj h).symm⟩
  · cases h

theorem adds_of_compileStatement {draft draft' : Draft} {fields : List String}
    (h : compileStatement parseF32 draft fields line = .ok draft') :
    Adds parseF32 fields draft draft' := by
  unfold compileStatement at h
  split at h
  · cases h
  · next keyword args =>
    split at h
    · next hk =>
      subst hk
      obtain ⟨header, rfl⟩ := headerStatement_eq_ok h
      exact adds_neither (by decide) (by decide) (by decide) (by decide) (by decide) rfl rfl
        (by simp) (by rw [cooldownOf_other (by decide), Option.none_or])
    split at h
    · next hk =>
      obtain ⟨-, h⟩ := guard_eq_ok h
      obtain ⟨c, hc, h⟩ := bind_eq_ok h
      obtain rfl := Except.ok.inj h
      exact adds_condition hk hc
    split at h
    · next hk =>
      obtain ⟨rfl, rfl⟩ := hk
      obtain rfl := Except.ok.inj h
      exact adds_neither (by decide) (by decide) (by decide) (by decide) (by decide) rfl rfl
        (by simp) rfl
    · next hedge =>
      have hnot : ¬ keyword :: args = ["edge", "rising"] := by simpa using hedge
      split at h
      · next hk =>
        obtain ⟨rfl, hlen⟩ := hk
        obtain ⟨duration, rfl⟩ := List.length_eq_one_iff.mp hlen
        obtain ⟨ms, hms, h⟩ := bind_eq_ok h
        obtain rfl := Except.ok.inj h
        refine adds_neither (by decide) (by decide) (by decide) (by decide) (by decide) rfl rfl
          (by simp) ?_
        have hread : cooldownOf ["cooldown", duration] = some ms := durationOf_of_parseDurationMs hms
        rw [hread, Option.some_or]
      split at h
      · next hk =>
        obtain ⟨rfl, hlen⟩ := hk
        obtain ⟨eventType, rfl⟩ := List.length_eq_one_iff.mp hlen
        obtain rfl := Except.ok.inj h
        exact adds_action (by decide) (by decide) (by decide) (by decide) rfl
      split at h
      · next hk =>
        obtain ⟨rfl, -⟩ := hk
        obtain ⟨action, haction, h⟩ := bind_eq_ok h
        obtain rfl := Except.ok.inj h
        exact adds_action (by decide) (by decide) (by decide) (by decide)
          (actionOf_of_captureStatement haction)
      split at h
      · next hk =>
        obtain ⟨rfl, hlen⟩ := hk
        obtain ⟨name, rfl⟩ := List.length_eq_one_iff.mp hlen
        obtain ⟨channel, hchannel, h⟩ := bind_eq_ok h
        obtain rfl := Except.ok.inj h
        apply adds_action (by decide) (by decide) (by decide) (by decide)
        have hnamed : namedChannel name = some channel := namedChannel_of_channelOf hchannel
        simp [actionOf, hnamed]
      split at h
      · next hk =>
        obtain ⟨rfl, rfl⟩ := hk
        obtain rfl := Except.ok.inj h
        exact adds_neither (by decide) (by decide) (by decide) (by decide) (by decide) rfl rfl
          (by simp) rfl
      · cases h

/-! ### Sources -/

/-- What a list of statements adds to a draft. -/
structure Reads (parseF32 : String → Option F32) (all : List (List String))
    (draft draft' : Draft) : Prop where
  conditions : draft'.conditions = draft.conditions ++ all.filterMap (conditionOf parseF32)
  edge : draft'.edge = (draft.edge || decide (["edge", "rising"] ∈ all))
  cooldown : draft'.cooldownMs = ((all.filterMap cooldownOf).getLast?).or draft.cooldownMs
  actions : draft'.actions = draft.actions ++ all.filterMap actionOf

theorem Reads.nil (draft : Draft) : Reads parseF32 [] draft draft :=
  ⟨by simp, by simp, rfl, by simp⟩

theorem Adds.cons {fields : List String} {all : List (List String)} {draft mid draft' : Draft}
    (h : Adds parseF32 fields draft mid) (hrest : Reads parseF32 all mid draft') :
    Reads parseF32 (fields :: all) draft draft' where
  conditions := by
    rw [hrest.conditions, h.conditions, List.filterMap_cons]
    cases conditionOf parseF32 fields <;> simp
  edge := by
    rw [hrest.edge, h.edge]
    by_cases hf : fields = ["edge", "rising"] <;> simp [hf, Ne.symm]
  cooldown := by
    rw [hrest.cooldown, h.cooldown, List.filterMap_cons]
    cases cooldownOf fields with
    | none => rw [Option.none_or]
    | some duration =>
      rw [List.getLast?_cons]
      cases (all.filterMap cooldownOf).getLast? <;> rfl
  actions := by
    rw [hrest.actions, h.actions, List.filterMap_cons]
    cases actionOf fields <;> simp

theorem reads_of_compileLines {texts : List (List Char)} {draft draft' : Draft}
    (h : compileLines parseF32 draft line texts = .ok draft') :
    Reads parseF32 (((texts.map statementText).filter (· ≠ [])).map fieldsOf) draft draft' := by
  induction texts generalizing draft line with
  | nil =>
    obtain rfl := Except.ok.inj h
    exact .nil draft
  | cons raw texts ih =>
    simp only [compileLines] at h
    by_cases hempty : statementText raw = []
    · rw [if_pos hempty] at h
      rw [List.map_cons, List.filter_cons_of_neg (by simpa using hempty)]
      exact ih h
    · rw [if_neg hempty] at h
      obtain ⟨-, h⟩ := guard_eq_ok h
      obtain ⟨mid, hmid, h⟩ := bind_eq_ok h
      rw [List.map_cons, List.filter_cons_of_pos (by simpa using hempty), List.map_cons]
      exact (adds_of_compileStatement hmid).cons (ih h)

/-- The draft of a source that compiles holds its rule. -/
theorem reads_source {source : String} {draft : Draft}
    (h : compileLines parseF32 .empty 1 (lines source.toList) = .ok draft) :
    draft.conditions = (ruleOf parseF32 source).conditions ∧
      draft.edge = (ruleOf parseF32 source).edge ∧
      draft.cooldownMs = (ruleOf parseF32 source).cooldown ∧
      draft.actions = (ruleOf parseF32 source).actions := by
  have hreads := reads_of_compileLines h
  refine ⟨hreads.conditions, ?_, ?_, hreads.actions⟩
  · rw [hreads.edge]
    rfl
  · rw [hreads.cooldown]
    exact Option.or_none

end Vidarax.Trigger
