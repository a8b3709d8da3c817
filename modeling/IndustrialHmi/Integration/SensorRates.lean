import IndustrialHmi.Integration.SensorIngestBridge
import IndustrialHmi.Model.InboundSetters

/-!
# Pass rates from MQTT

The bridge hands the model whatever `strtof` makes of a payload, and the model clamps it.  An
infinity and a number out of range come to a limit.  What is not a number is smaller than nothing
and larger than nothing, so the clamp lets it through.  The word for it, in any case and with a
sign or a sequence in parentheses, is a payload like any other.

So the rates stay numbers exactly as long as no payload for a checkpoint spells that word
(`ratesStayNumbers_iff`).
-/

namespace Sensor

open CType Numeral Production SimulatedModel

/-! ## The limits -/

/-- A number between the limits of the model. -/
def WithinLimits (rate : Binary32) : Prop := ∃ q : ℚ, rate = .fin q ∧ 85 ≤ q ∧ q ≤ 100

theorem not_withinLimits_nan : ¬WithinLimits .nan := by
  rintro ⟨q, h, -⟩
  cases h

/-- The clamp of the model keeps what is not a number, and nothing else that is out of range. -/
theorem withinLimits_clamp {rate : Binary32} :
    WithinLimits (rate.clamp kQualityRateMin kQualityRateMax) ↔ rate ≠ .nan := by
  have hmin : WithinLimits (.fin 85) := ⟨85, rfl, by norm_num, by norm_num⟩
  have hmax : WithinLimits (.fin 100) := ⟨100, rfl, by norm_num, by norm_num⟩
  cases rate with
  | nan => exact iff_of_false not_withinLimits_nan (not_not.mpr rfl)
  | negInf => exact iff_of_true hmin (fun h => by cases h)
  | posInf => exact iff_of_true hmax (fun h => by cases h)
  | fin q =>
      refine iff_of_true ?_ fun h => by cases h
      simp only [Binary32.clamp, Binary32.lt, kQualityRateMin, kQualityRateMax, decide_eq_true_eq]
      split
      · exact hmin
      · next hlow =>
          split
          · exact hmax
          · next hhigh => exact ⟨q, rfl, not_lt.mp hlow, not_lt.mp hhigh⟩

theorem add_ne_nan (a b : ℚ) : (Binary32.fin a).add (.fin b) ≠ .nan := Binary32.round_ne_nan _

/-! ## Payloads -/

/-- The payload is a spelling of what is not a number. -/
def NotANumber (payload : Text) : Prop := SpellsNan ((trim payload).takeWhile (· ≠ 0))

theorem parseFloatPayload_eq_nan [Lconv] {payload : Text} :
    parseFloatPayload payload = some .nan ↔ NotANumber payload := by
  have hhead : ∀ b ∈ ((trim payload).takeWhile (· ≠ 0)).head?, isSpace b = false := by
    have hfirst := (trim_ends payload).1
    cases htrim : trim payload with
    | nil => exact fun b hb => by cases hb
    | cons c t =>
        rw [htrim] at hfirst
        intro b hb
        rw [List.takeWhile_cons] at hb
        split at hb
        · exact hfirst b hb
        · cases hb
  have hread := @strtof_eq_nan _ ((trim payload).takeWhile (· ≠ 0))
  rw [dropWhile_eq_self hhead] at hread
  rw [NotANumber, ← hread, parseFloatPayload]
  by_cases hempty : trim payload = []
  · rw [if_pos hempty, hempty]
    refine iff_of_false (fun h => by cases h) ?_
    rintro ⟨r, hr, -⟩
    exact absurd (strtof_nil.symm.trans hr) (by simp)
  · rw [if_neg hempty]
    cases strtof ((trim payload).takeWhile (· ≠ 0)) with
    | none =>
        refine iff_of_false (fun h => by cases h) ?_
        rintro ⟨r, hr, -⟩
        cases hr
    | some r =>
        simp only [Option.some.injEq, exists_eq_left']
        by_cases hrest : r.rest = []
        · simp [hrest]
        · simp [hrest]

/-! ## Runs -/

inductive Event where
  /-- A payload is published on the rate topic of a checkpoint. -/
  | publish (id : Nat) (payload : Text)
  /-- The simulation goes on. -/
  | tick (draws : Draws) (now : ℤ)

/-- What an event makes the model do. -/
def Event.effect [Lconv] (config : Config) (c : SimulatedModel) : Event → Effect
  | publish id payload =>
      (Sensor.publish config ((Callback.rate id).topic config.topicPrefix) payload).foldl
        (fun e op => e.andThen (step · op)) (c, [])
  | tick draws now => c.tickSimulation draws now

/-- The events of a run, one after the other. -/
def run [Lconv] (config : Config) (c : SimulatedModel) : List Event → Effect
  | [] => (c, [])
  | event :: events => (event.effect config c).andThen (run config · events)

/-- Every stored rate is a number between the limits. -/
def Numbers (c : SimulatedModel) : Prop :=
  ∀ (id : Nat) (cp : QualityCheckpoint), c.qualityCheckpoints[id]? = some cp →
    WithinLimits cp.passRate

/-- Every rate that observers are told is a number between the limits. -/
def Told (sent : List Notification) : Prop :=
  ∀ cp : QualityCheckpoint, Notification.quality cp ∈ sent → WithinLimits cp.passRate

/-- All along a run the stored rates and those told to observers are numbers. -/
structure RatesStayNumbers [Lconv] (config : Config) (c : SimulatedModel) (events : List Event) :
    Prop where
  stored : ∀ before after, events = before ++ after → Numbers (run config c before).1
  told : Told (run config c events).2

/-- A payload reaches a checkpoint of the model and spells what is not a number. -/
def Event.Poisons (config : Config) (c : SimulatedModel) : Event → Prop
  | publish id payload =>
      id < config.qualityCount.toNat ∧ id ∈ c.qualityCheckpoints ∧ NotANumber payload
  | tick _ _ => False

/-! ## One event -/

section

variable {config : Config} {c : SimulatedModel} {events : List Event}

theorem effect_publish [Lconv] (config : Config) (c : SimulatedModel) (id : Nat) (payload : Text) :
    (Event.publish id payload).effect config c =
      if id < config.qualityCount.toNat then
        match parseFloatPayload payload with
        | none => (c, [])
        | some rate => c.setQualityPassRate id rate
      else (c, []) := by
  rw [Event.effect]
  by_cases hid : id < config.qualityCount.toNat
  · rw [if_pos hid, publish_topic (rate_mem_callbacks.mpr hid), Callback.command]
    cases parseFloatPayload payload with
    | none => rfl
    | some rate => rfl
  · rw [if_neg hid, publish_of_notMem fun h => hid (rate_mem_callbacks.mp h)]
    rfl

/-- The rate is stored clamped, and the observers are told what is stored. -/
theorem setQualityPassRate_of_mem {id : Nat} (h : id ∈ c.qualityCheckpoints) (rate : Binary32) :
    ∃ cp : QualityCheckpoint, cp.passRate = rate.clamp kQualityRateMin kQualityRateMax ∧
      (c.setQualityPassRate id rate).2 = [.quality cp] ∧
      ∀ k : Nat, (c.setQualityPassRate id rate).1.qualityCheckpoints[k]? =
        if id = k then some cp else c.qualityCheckpoints[k]? := by
  have hmem : id ∈ c.qualityCheckpoints.subscript id fun cp =>
      { cp with passRate := rate.clamp kQualityRateMin kQualityRateMax } :=
    (IdMap.mem_subscript _ _ _ _).mpr (.inl rfl)
  refine ⟨{ c.qualityCheckpoints[id]?.getD default with
    passRate := rate.clamp kQualityRateMin kQualityRateMax }, rfl, ?_, fun k => ?_⟩
  · simp only [setQualityPassRate, if_neg (not_not.mpr h), notifyQualityChange,
      IdMap.subscript_of_mem hmem, IdMap.get_subscript_self]
    rfl
  · simp only [setQualityPassRate, if_neg (not_not.mpr h), notifyQualityChange,
      IdMap.subscript_of_mem hmem, IdMap.get_subscript]

theorem told_nil : Told [] := fun _ h => by cases h

/-- A tick keeps a rate within the limits, whoever drives the checkpoint. -/
theorem withinLimits_tickCheckpoint {cp : QualityCheckpoint} (draws : Draws) (k : Nat)
    (h : WithinLimits cp.passRate) : WithinLimits (c.tickCheckpoint draws k cp).passRate := by
  obtain ⟨q, hq, hlimits⟩ := h
  rw [tickCheckpoint]
  by_cases hexternal : k ∈ c.externalPassRateOverrides
  · simp only [if_pos hexternal]
    exact ⟨q, hq, hlimits⟩
  · simp only [if_neg hexternal, hq]
    exact withinLimits_clamp.mpr (add_ne_nan _ _)

theorem numbers_tick (hc : Numbers c) (draws : Draws) (now : ℤ) :
    Numbers (c.tickSimulation draws now).1 ∧ Told (c.tickSimulation draws now).2 := by
  have hmap : ∀ (k : Nat) (cp : QualityCheckpoint),
      (c.qualityCheckpoints.map (c.tickCheckpoint draws))[k]? = some cp →
        WithinLimits cp.passRate := by
    intro k cp hk
    rw [Std.ExtTreeMap.getElem?_map, Option.map_eq_some_iff] at hk
    obtain ⟨old, hold, rfl⟩ := hk
    exact withinLimits_tickCheckpoint draws k (hc k old hold)
  constructor
  · intro k cp hk
    rw [tickSimulation_keeps] at hk
    exact hmap k cp hk
  · intro cp hcp
    simp only [tickSimulation, andThen_snd, notifyQualityChanges_keys, notifyWorkUnitChange,
      List.mem_append, List.mem_flatMap, List.mem_map, Option.mem_toList, List.mem_singleton,
      reduceCtorEq, or_false] at hcp
    obtain ⟨k, -, cp', hcp', hsame⟩ := hcp
    cases hsame
    split at hcp' <;> exact hmap k cp hcp'

/-- A rate that is a number is stored and told as one within the limits. -/
theorem numbers_setQualityPassRate (hc : Numbers c) (id : Nat) {rate : Binary32}
    (hrate : id ∈ c.qualityCheckpoints → rate ≠ .nan) :
    Numbers (c.setQualityPassRate id rate).1 ∧ Told (c.setQualityPassRate id rate).2 := by
  by_cases hmem : id ∈ c.qualityCheckpoints
  · obtain ⟨cp, hclamp, hsent, hstored⟩ := setQualityPassRate_of_mem hmem rate
    have hcp : WithinLimits cp.passRate := hclamp ▸ withinLimits_clamp.mpr (hrate hmem)
    constructor
    · intro k cp' hk
      rw [hstored] at hk
      split at hk
      · cases hk
        exact hcp
      · exact hc k cp' hk
    · intro cp' hcp'
      rw [hsent, List.mem_singleton] at hcp'
      cases hcp'
      exact hcp
  · simp only [setQualityPassRate, if_pos hmem]
    exact ⟨hc, told_nil⟩

/-- An event that does not poison a rate leaves numbers, and one that does, does not. -/
theorem numbers_effect [Lconv] (hc : Numbers c) (event : Event) :
    (¬event.Poisons config c →
        Numbers (event.effect config c).1 ∧ Told (event.effect config c).2) ∧
      (event.Poisons config c → ¬Numbers (event.effect config c).1) := by
  cases event with
  | tick draws now => exact ⟨fun _ => numbers_tick hc draws now, fun h => h.elim⟩
  | publish id payload =>
      rw [effect_publish]
      constructor
      · intro hpoisons
        by_cases hid : id < config.qualityCount.toNat
        · rw [if_pos hid]
          cases hparse : parseFloatPayload payload with
          | none => exact ⟨hc, told_nil⟩
          | some rate =>
              refine numbers_setQualityPassRate hc id fun hmem => ?_
              rintro rfl
              exact hpoisons ⟨hid, hmem, parseFloatPayload_eq_nan.mp hparse⟩
        · rw [if_neg hid]
          exact ⟨hc, told_nil⟩
      · rintro ⟨hid, hmem, hnan⟩ hnumbers
        rw [if_pos hid, parseFloatPayload_eq_nan.mpr hnan] at hnumbers
        obtain ⟨cp, hclamp, -, hstored⟩ := setQualityPassRate_of_mem hmem .nan
        have hcp := hnumbers id cp ((hstored id).trans (if_pos rfl))
        rw [hclamp] at hcp
        exact withinLimits_clamp.mp hcp rfl

/-- An event neither adds nor removes a checkpoint. -/
theorem mem_effect [Lconv] (config : Config) (c : SimulatedModel) (event : Event) (k : Nat) :
    k ∈ (event.effect config c).1.qualityCheckpoints ↔ k ∈ c.qualityCheckpoints := by
  cases event with
  | tick draws now =>
      exact (mem_qualityCheckpoints_step c (.tickSimulation draws now) k).trans
        (Iff.of_eq (false_or _))
  | publish id payload =>
      rw [effect_publish]
      split
      · split
        · exact Iff.rfl
        · next rate _ =>
            exact (mem_qualityCheckpoints_step c (.setQualityPassRate id rate) k).trans
              (Iff.of_eq (false_or _))
      · exact Iff.rfl

theorem poisons_effect [Lconv] (config : Config) (c : SimulatedModel) (event later : Event) :
    later.Poisons config (event.effect config c).1 ↔ later.Poisons config c := by
  cases later with
  | tick draws now => exact Iff.rfl
  | publish id payload =>
      rw [Event.Poisons, mem_effect]
      exact Iff.rfl

/-! ## Runs of events -/

theorem ratesStayNumbers_cons [Lconv] {event : Event} :
    RatesStayNumbers config c (event :: events) ↔
      Numbers c ∧ Told (event.effect config c).2 ∧
        RatesStayNumbers config (event.effect config c).1 events := by
  have htold : Told (run config c (event :: events)).2 ↔
      Told (event.effect config c).2 ∧ Told (run config (event.effect config c).1 events).2 := by
    rw [run, andThen_snd]
    constructor
    · intro h
      exact ⟨fun cp hcp => h cp (List.mem_append_left _ hcp),
        fun cp hcp => h cp (List.mem_append_right _ hcp)⟩
    · rintro ⟨hfirst, hrest⟩ cp hcp
      exact (List.mem_append.mp hcp).elim (hfirst cp) (hrest cp)
  constructor
  · intro h
    have hsent := htold.mp h.told
    refine ⟨h.stored [] _ rfl, hsent.1, ⟨fun before after hevents => ?_, hsent.2⟩⟩
    exact h.stored (event :: before) after (congrArg _ hevents)
  · rintro ⟨hc, hsent, h⟩
    refine ⟨fun before after hevents => ?_, htold.mpr ⟨hsent, h.told⟩⟩
    cases before with
    | nil => exact hc
    | cons first before =>
        obtain ⟨rfl, hrest⟩ := List.cons.inj hevents
        exact h.stored before after hrest

theorem ratesStayNumbers_of_numbers [Lconv] (hc : Numbers c) :
    RatesStayNumbers config c events ↔ ∀ event ∈ events, ¬event.Poisons config c := by
  induction events generalizing c with
  | nil =>
      refine iff_of_true ⟨fun before after h => ?_, told_nil⟩ fun _ h => by cases h
      obtain ⟨rfl, -⟩ := List.append_eq_nil_iff.mp h.symm
      exact hc
  | cons event events ih =>
      obtain ⟨hkeeps, hspoils⟩ := @numbers_effect config _ _ hc event
      rw [ratesStayNumbers_cons, List.forall_mem_cons]
      constructor
      · rintro ⟨-, hsent, h⟩
        have hnumbers := h.stored [] _ rfl
        refine ⟨fun hpoisons => hspoils hpoisons hnumbers, fun later hlater => ?_⟩
        rw [← poisons_effect config c event]
        exact (ih hnumbers).mp h later hlater
      · rintro ⟨hevent, hevents⟩
        obtain ⟨hnumbers, hsent⟩ := hkeeps hevent
        refine ⟨hc, hsent, (ih hnumbers).mpr fun later hlater => ?_⟩
        rw [poisons_effect]
        exact hevents later hlater

end

/-! ## The initialised model -/

theorem mem_demoModel (id : Nat) : id ∈ demoModel.qualityCheckpoints ↔ id < 3 := by
  have hstep := mem_qualityCheckpoints_step {} .initializeDemoData id
  have hempty : id ∉ ({} : SimulatedModel).qualityCheckpoints := Std.ExtTreeMap.not_mem_empty
  exact hstep.trans (or_iff_left hempty)

theorem numbers_demoModel : Numbers demoModel := by
  intro id cp hcp
  have hmem : id ∈ demoModel.qualityCheckpoints := Std.ExtTreeMap.mem_iff_isSome_getElem?.mpr
    (by rw [hcp]; rfl)
  have hid := (mem_demoModel id).mp hmem
  have hrate : WithinLimits
      ((demoModel.qualityCheckpoints[id]?.getD default).passRate) := by
    simp only [demoModel, initializeDemoData, andThen_fst, dispatch_fst, notifyQualityChanges_keys,
      Std.ExtTreeMap.getElem?_insert, Nat.compare_eq_eq]
    have hcases : id = 0 ∨ id = 1 ∨ id = 2 := by omega
    rcases hcases with rfl | rfl | rfl
    · exact ⟨Binary32.rounded (981 / 10), by decide +kernel, by decide +kernel, by decide +kernel⟩
    · exact ⟨Binary32.rounded (957 / 10), by decide +kernel, by decide +kernel, by decide +kernel⟩
    · exact ⟨93, rfl, by decide +kernel, by decide +kernel⟩
  rw [hcp] at hrate
  exact hrate

/-- All rates of an initialised model stay numbers between its limits, stored and told, exactly
when no payload that is published for one of its checkpoints spells what is not a number. -/
theorem ratesStayNumbers_iff [Lconv] (config : Config) (events : List Event) :
    RatesStayNumbers config demoModel events ↔
      ∀ id payload, Event.publish id payload ∈ events → id < config.qualityCount.toNat → id < 3 →
        ¬NotANumber payload := by
  rw [ratesStayNumbers_of_numbers numbers_demoModel]
  constructor
  · intro h id payload hmem hcount hid hnan
    exact h _ hmem ⟨hcount, (mem_demoModel id).mpr hid, hnan⟩
  · intro h event hmem hpoisons
    cases event with
    | tick draws now => exact hpoisons
    | publish id payload =>
        obtain ⟨hcount, hid, hnan⟩ := hpoisons
        exact h id payload hmem hcount ((mem_demoModel id).mp hid) hnan

theorem not_ratesStayNumbers_nan :
    ¬@RatesStayNumbers Lconv.c {} demoModel [.publish 0 (ascii " NaN")] := by
  intro h
  have hnone := (@ratesStayNumbers_of_numbers _ _ _ Lconv.c numbers_demoModel).mp h
  refine hnone _ List.mem_cons_self ⟨by decide, (mem_demoModel 0).mpr (by decide), ?_⟩
  exact (@parseFloatPayload_eq_nan Lconv.c _).mp rfl

end Sensor
