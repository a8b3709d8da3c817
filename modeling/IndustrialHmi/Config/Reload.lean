import IndustrialHmi.Config.ConfigValidator

/-!
# Reloading

`reload` reads the file again, swaps the map, and swaps it back when the validator does not accept
the new one.  The listeners are called when the lock is released, and what one of them throws does
not reach the others.

Of what the parser throws only a parse error is caught.  A file with a number that no `double` holds
is well formed, and the parser throws something else at it, so that `reload` leaves with an
exception.  In all other cases it keeps its contract (`reloadAtomic_iff`).
-/

namespace Config

open Numeral

/-- What a listener may throw: a `std::exception`, or anything else. -/
inductive Thrown where
  | exception (what : Text)
  | other

/-- A listener finds a map.  It may set settings itself, and it may throw. -/
abbrev Listener := FlatMap → FlatMap × Option Thrown

structure ConfigManager where
  config : FlatMap
  configPath : Text
  reloadListeners : List Listener

/-- How `reloadLocked` ends, and the map then.  Without a result an exception leaves it. -/
structure Locked where
  result : Option Bool
  config : FlatMap

section

variable (parse : Text → Parsed) (files : Text → Option Text)

/-- `files` gives the content of a path that can be opened. -/
def reloadLocked [Lconv] (m : ConfigManager) : Locked :=
  if m.configPath = [] then { result := some false, config := m.config }
  else
    match files m.configPath with
    | none => { result := some false, config := m.config }
    | some content =>
        match parse content with
        | .parseError => { result := some false, config := m.config }
        | .outOfRange => { result := none, config := m.config }
        | .value root =>
            let prevConfig := m.config
            let m := { m with config := flatten root }
            if !(validate m.config).ok then { result := some false, config := prevConfig }
            else { result := some true, config := m.config }

/-- The listeners that are called, and the map they leave. -/
def dispatch : List Listener → FlatMap → List Listener × FlatMap
  | [], config => ([], config)
  | l :: listeners, config =>
      let config :=
        match l config with
        | (config, none) => config
        | (config, some (.exception _)) => config
        | (config, some .other) => config
      let r := dispatch listeners config
      (l :: r.1, r.2)

/-- How `reload` ends: the map that is live when the lock is released, the listeners that are
called, and the map at the end. -/
structure Reloaded where
  result : Option Bool
  live : FlatMap
  called : List Listener
  config : FlatMap

def reload [Lconv] (m : ConfigManager) : Reloaded :=
  let locked := reloadLocked parse files m
  let snapshot := if locked.result = some true then m.reloadListeners else []
  let r := dispatch snapshot locked.config
  { result := locked.result, live := locked.config, called := r.1, config := r.2 }

end

/-! ## Listeners -/

/-- What the listeners set, one after the other. -/
def settings (listeners : List Listener) (config : FlatMap) : FlatMap :=
  listeners.foldl (fun config l => (l config).1) config

/-- Whatever they throw, all listeners are called. -/
theorem dispatch_eq (listeners : List Listener) (config : FlatMap) :
    dispatch listeners config = (listeners, settings listeners config) := by
  induction listeners generalizing config with
  | nil => rfl
  | cons l listeners ih =>
      have hcaught : (match l config with
          | (config, none) => config
          | (config, some (.exception _)) => config
          | (config, some .other) => config) = (l config).1 := by
        obtain ⟨config, thrown⟩ := l config
        rcases thrown with _ | _ | _ <;> rfl
      rw [dispatch, hcaught, ih]
      rfl

/-- A listener that sets nothing. -/
def Listener.Quiet (l : Listener) : Prop := ∀ config, (l config).1 = config

theorem settings_of_quiet {listeners : List Listener} (h : ∀ l ∈ listeners, l.Quiet)
    (config : FlatMap) : settings listeners config = config := by
  induction listeners with
  | nil => rfl
  | cons l listeners ih =>
      rw [settings, List.foldl_cons, h l List.mem_cons_self, ← settings,
        ih fun l' hl' => h l' (List.mem_cons_of_mem l hl')]

/-! ## The contract -/

section

variable {parse : Text → Parsed} {files : Text → Option Text} {m : ConfigManager}

/-- The file at the path of the manager. -/
def ConfigManager.content (m : ConfigManager) (files : Text → Option Text) : Option Text :=
  if m.configPath = [] then none else files m.configPath

/-- What a reload takes from a content: the map, if the content is a document and its map valid. -/
def accept [Lconv] (parse : Text → Parsed) (content : Text) : Option FlatMap :=
  match parse content with
  | .value root => if (validate (flatten root)).ok then some (flatten root) else none
  | _ => none

theorem accept_eq_some [Lconv] {content : Text} {config : FlatMap} :
    accept parse content = some config ↔
      ∃ root, parse content = .value root ∧ config = flatten root ∧
        (validate config).ok = true := by
  rw [accept]
  cases parse content with
  | value root =>
      simp only [Option.ite_none_right_eq_some, Option.some.injEq, Parsed.value.injEq,
        exists_eq_left']
      constructor
      · rintro ⟨hok, rfl⟩
        exact ⟨rfl, hok⟩
      · rintro ⟨rfl, hok⟩
        exact ⟨hok, rfl⟩
  | _ => simp

/-- The ways `reloadLocked` can end. -/
inductive Ends [Lconv] (parse : Text → Parsed) (files : Text → Option Text) (m : ConfigManager) :
    Locked → Prop where
  | thrown (content : Text) (hcontent : m.content files = some content)
      (h : parse content = .outOfRange) : Ends parse files m { result := none, config := m.config }
  | rejected (h : ∀ content, m.content files = some content →
      parse content ≠ .outOfRange ∧ accept parse content = none) :
      Ends parse files m { result := some false, config := m.config }
  | accepted (content : Text) (config : FlatMap) (hcontent : m.content files = some content)
      (h : accept parse content = some config) :
      Ends parse files m { result := some true, config }

theorem reloadLocked_ends [Lconv] : Ends parse files m (reloadLocked parse files m) := by
  by_cases hpath : m.configPath = []
  · rw [reloadLocked, if_pos hpath]
    refine .rejected fun content hcontent => ?_
    rw [ConfigManager.content, if_pos hpath] at hcontent
    cases hcontent
  · have hfile : m.content files = files m.configPath := if_neg hpath
    cases hopen : files m.configPath with
    | none =>
        simp only [reloadLocked, if_neg hpath, hopen]
        refine .rejected fun content hcontent => ?_
        rw [hfile, hopen] at hcontent
        cases hcontent
    | some content =>
        rw [hopen] at hfile
        have hsame : ∀ {content'}, m.content files = some content' → content' = content :=
          fun h => Option.some.inj (h.symm.trans hfile)
        cases hparse : parse content with
        | parseError =>
            simp only [reloadLocked, if_neg hpath, hopen, hparse]
            refine .rejected fun content' hcontent => ?_
            rw [hsame hcontent, accept, hparse]
            exact ⟨Parsed.noConfusion, rfl⟩
        | outOfRange =>
            simp only [reloadLocked, if_neg hpath, hopen, hparse]
            exact .thrown content hfile hparse
        | value root =>
            simp only [reloadLocked, if_neg hpath, hopen, hparse]
            cases hok : (validate (flatten root)).ok with
            | true => exact .accepted content _ hfile (accept_eq_some.mpr ⟨root, hparse, rfl, hok⟩)
            | false =>
                refine .rejected fun content' hcontent => ?_
                rw [hsame hcontent, accept, hparse]
                exact ⟨Parsed.noConfusion, if_neg (Bool.eq_false_iff.mp hok)⟩

/-- The contract of `reload`.  It returns.  When it returns true, the map that goes live is the
flattened and valid file, and each listener is called once, in order; at the end the map is that one
with what the listeners set.  When it returns false, the map is the one from before and no listener
is called. -/
structure ReloadAtomic [Lconv] (parse : Text → Parsed) (files : Text → Option Text)
    (m : ConfigManager) : Prop where
  returns : ∃ b, (reload parse files m).result = some b
  applied : (reload parse files m).result = some true →
    ∃ content root, m.content files = some content ∧ parse content = .value root ∧
      (validate (flatten root)).ok = true ∧ (reload parse files m).live = flatten root ∧
      (reload parse files m).called = m.reloadListeners ∧
      (reload parse files m).config = settings m.reloadListeners (flatten root)
  kept : (reload parse files m).result = some false →
    (reload parse files m).live = m.config ∧ (reload parse files m).called = [] ∧
      (reload parse files m).config = m.config

theorem reload_eq [Lconv] (parse : Text → Parsed) (files : Text → Option Text)
    (m : ConfigManager) : reload parse files m =
      let locked := reloadLocked parse files m
      let called := if locked.result = some true then m.reloadListeners else []
      { result := locked.result, live := locked.config, called,
        config := settings called locked.config } := by
  rw [reload]
  simp only [dispatch_eq]

theorem reloadAtomic_of_not_outOfRange [Lconv]
    (h : ∀ content, m.content files = some content → parse content ≠ .outOfRange) :
    ReloadAtomic parse files m := by
  have hends := @reloadLocked_ends parse files m _
  have hreload := reload_eq parse files m
  generalize reloadLocked parse files m = locked at hends hreload
  cases hends with
  | thrown content hcontent hthrown => exact absurd hthrown (h content hcontent)
  | rejected hrejected =>
      have hkept : reload parse files m = ⟨some false, m.config, [], m.config⟩ := hreload
      constructor
      · exact ⟨false, by rw [hkept]⟩
      · intro htrue
        rw [hkept] at htrue
        cases htrue
      · intro _
        rw [hkept]
        exact ⟨rfl, rfl, rfl⟩
  | accepted content config hcontent haccept =>
      obtain ⟨root, hparse, rfl, hok⟩ := accept_eq_some.mp haccept
      have happlied : reload parse files m = ⟨some true, flatten root, m.reloadListeners,
          settings m.reloadListeners (flatten root)⟩ := hreload
      constructor
      · exact ⟨true, by rw [happlied]⟩
      · intro _
        rw [happlied]
        exact ⟨content, root, hcontent, hparse, hok, rfl, rfl, rfl⟩
      · intro hfalse
        rw [happlied] at hfalse
        cases hfalse

theorem not_reloadAtomic_of_outOfRange [Lconv] {content : Text}
    (hcontent : m.content files = some content) (h : parse content = .outOfRange) :
    ¬ReloadAtomic parse files m := by
  rintro ⟨⟨b, hb⟩, -, -⟩
  have hends := @reloadLocked_ends parse files m _
  rw [reload_eq] at hb
  generalize reloadLocked parse files m = locked at hends hb
  cases hends with
  | thrown => cases hb
  | rejected hrejected => exact (hrejected content hcontent).1 h
  | accepted content' config hcontent' haccept =>
      obtain ⟨root, hparse, -, -⟩ := accept_eq_some.mp haccept
      obtain rfl := Option.some.inj (hcontent.symm.trans hcontent')
      rw [h] at hparse
      cases hparse

end

/-- The contract is kept exactly when the parser does not throw the exception that is not caught. -/
theorem reloadAtomic_iff [Lconv] (parse : Text → Parsed) (files : Text → Option Text)
    (m : ConfigManager) : ReloadAtomic parse files m ↔
      ∀ content, m.content files = some content → parse content ≠ .outOfRange := by
  constructor
  · intro h content hcontent hthrown
    exact not_reloadAtomic_of_outOfRange hcontent hthrown h
  · exact reloadAtomic_of_not_outOfRange

/-- A parser at a number that is too large. -/
def parseTooLarge (content : Text) : Parsed :=
  if content = ascii "\x7b\"a\": 1e999\x7d" then .outOfRange else .parseError

theorem not_reloadAtomic_tooLarge :
    ¬@ReloadAtomic Lconv.c parseTooLarge (fun _ => some (ascii "\x7b\"a\": 1e999\x7d"))
      { config := fun _ => none, configPath := ascii "config/app-config.json",
        reloadListeners := [] } :=
  @not_reloadAtomic_of_outOfRange _ _ _ Lconv.c _ rfl rfl

end Config
