import IndustrialHmi.Config.Reload
import IndustrialHmi.Theory.Runs

/-!
# The watcher of the configuration file

`pollOnce` reads the modification time of the file, and when it is not the one seen last, remembers
it and reloads.  Between these steps the file may be replaced, removed or made again.  What is read
by the reload may then be newer than the time that was remembered, never older.  So when the time
remembered is that of the file, a valid content is the one in effect (`Settled`), and the next poll
finds any other (`converges`).

The path is that of the manager.  A time that cannot be read is `file_time_type::min()`, which no
file has, and is modelled as no time.
-/

namespace Config

open Numeral Runs

/-- A file that is watched, and the listeners of its manager.  None of them sets a setting, since
nothing but the file changes the configuration. -/
structure Watched where
  parse : Text → Parsed
  path : Text
  path_ne : path ≠ []
  listeners : List Listener
  quiet : ∀ l ∈ listeners, l.Quiet

/-- Where a poll is: between two calls, with the time it has read, or with that time remembered. -/
inductive Poll (τ : Type) where
  | idle
  | read (current : Option τ)
  | remembered

/-- `times` are those the file has had.  `accepted` is the content that was accepted last. -/
structure World (τ : Type) where
  file : Option (Text × τ)
  times : List τ
  lastSeenMtime : Option τ
  poll : Poll τ
  config : FlatMap
  accepted : Text

inductive FileEvent (τ : Type) where
  | replace (content : Text) (time : τ)
  | remove
  | poll

section

variable {τ : Type} [DecidableEq τ] (S : Watched)

def readMtime (w : World τ) : Option τ := w.file.map Prod.snd

def World.content (w : World τ) : Option Text := w.file.map Prod.fst

/-- The last step of a poll.  It ends there also when an exception leaves `reload`. -/
def reloadStep [Lconv] (w : World τ) : World τ :=
  let r := reload S.parse (fun _ => w.content)
    { config := w.config, configPath := S.path, reloadListeners := S.listeners }
  { w with
    poll := .idle
    config := r.config
    accepted := if r.result = some true then w.content.getD w.accepted else w.accepted }

/-- The next step of a poll.  With the time seen last it ends at once. -/
def pollStep [Lconv] (w : World τ) : World τ :=
  match w.poll with
  | .idle =>
      let current := readMtime w
      if current = w.lastSeenMtime then w else { w with poll := .read current }
  | .read current => { w with lastSeenMtime := current, poll := .remembered }
  | .remembered => reloadStep S w

def watchStep [Lconv] (w : World τ) : FileEvent τ → World τ
  | .replace content time => { w with file := some (content, time), times := time :: w.times }
  | .remove => { w with file := none }
  | .poll => pollStep S w

/-- The whole call, and whether it has reloaded. -/
def pollOnce [Lconv] (w : World τ) : Bool × World τ :=
  let current := readMtime w
  if current = w.lastSeenMtime then (false, w)
  else (true, reloadStep S { w with lastSeenMtime := current })

/-- The call is its steps. -/
theorem pollOnce_eq_run [Lconv] {w : World τ} (h : w.poll = .idle) :
    (pollOnce S w).2 =
      (List.replicate (if (pollOnce S w).1 then 3 else 1) FileEvent.poll).foldl (watchStep S)
        w := by
  rw [pollOnce]
  by_cases hsame : readMtime w = w.lastSeenMtime
  · have hstep : pollStep S w = w := by
      rw [pollStep, h]
      exact if_pos hsame
    rw [if_pos hsame]
    exact hstep.symm
  · have hstep : pollStep S w = { w with poll := .read (readMtime w) } := by
      rw [pollStep, h]
      exact if_neg hsame
    rw [if_neg hsame]
    show _ = pollStep S (pollStep S (pollStep S w))
    rw [hstep]
    rfl

/-- The watcher is made, and the configuration is that of the file. -/
def watch (content : Text) (time : τ) (root : Json) : World τ where
  file := some (content, time)
  times := [time]
  lastSeenMtime := some time
  poll := .idle
  config := flatten root
  accepted := content

/-- A replacement gives the file a time it has not had. -/
def Fresh (w : World τ) : FileEvent τ → Prop
  | .replace _ time => time ∉ w.times
  | _ => True

end

/-! ## What a reload does -/

section

variable {τ : Type} {S : Watched} {w : World τ}

/-- A content that would be accepted is the one that was accepted last. -/
def Settled [Lconv] (S : Watched) (w : World τ) : Prop :=
  ∀ content config, w.content = some content → accept S.parse content = some config →
    w.accepted = content

/-- The configuration is that of the content accepted last. -/
def InEffect (S : Watched) (w : World τ) : Prop :=
  ∃ root, S.parse w.accepted = .value root ∧ w.config = flatten root

/-- A reload takes the content that is there, or leaves everything. -/
theorem reloadStep_cases [Lconv] (S : Watched) (w : World τ) :
    (∃ content config, w.content = some content ∧ accept S.parse content = some config ∧
        reloadStep S w = { w with poll := .idle, config, accepted := content }) ∨
      (∀ content, w.content = some content → accept S.parse content = none) ∧
        reloadStep S w = { w with poll := .idle } := by
  have hcontent : ConfigManager.content
      { config := w.config, configPath := S.path, reloadListeners := S.listeners }
        (fun _ => w.content) = w.content := if_neg S.path_ne
  have hends := @reloadLocked_ends S.parse (fun _ => w.content)
    { config := w.config, configPath := S.path, reloadListeners := S.listeners } _
  rw [reloadStep, reload_eq]
  generalize reloadLocked S.parse (fun _ => w.content)
    { config := w.config, configPath := S.path, reloadListeners := S.listeners } = locked at hends
  cases hends with
  | thrown content hfile hthrown =>
      refine Or.inr ⟨fun content' hcontent' => ?_, rfl⟩
      rw [hcontent] at hfile
      obtain rfl := Option.some.inj (hfile.symm.trans hcontent')
      rw [accept, hthrown]
  | rejected hrejected =>
      exact Or.inr ⟨fun content h => (hrejected content (hcontent.trans h)).2, rfl⟩
  | accepted content config hfile haccept =>
      rw [hcontent] at hfile
      refine Or.inl ⟨content, config, hfile, haccept, ?_⟩
      simp only [if_true, settings_of_quiet S.quiet, hfile, Option.getD_some]

theorem settled_reloadStep [Lconv] : Settled S (reloadStep S w) := by
  rcases reloadStep_cases S w with ⟨content, config, hfile, -, hstep⟩ | ⟨hnone, hstep⟩
  · intro content' config' hfile' _
    rw [hstep] at hfile' ⊢
    exact Option.some.inj (hfile.symm.trans hfile')
  · intro content config hfile haccept
    rw [hstep] at hfile
    rw [hnone content hfile] at haccept
    cases haccept

theorem inEffect_reloadStep [Lconv] (h : InEffect S w) : InEffect S (reloadStep S w) := by
  rcases reloadStep_cases S w with ⟨content, config, -, haccept, hstep⟩ | ⟨-, hstep⟩
  · obtain ⟨root, hparse, hconfig, -⟩ := accept_eq_some.mp haccept
    rw [hstep]
    exact ⟨root, hparse, hconfig⟩
  · rw [hstep]
    exact h

end

/-! ## What the steps keep -/

/-- Every time that the watcher holds is one that the file has had, and outside of a reload a file
with the time seen last is settled. -/
structure Watching [Lconv] {τ : Type} (S : Watched) (w : World τ) : Prop where
  file_mem : ∀ time, readMtime w = some time → time ∈ w.times
  seen_mem : ∀ time, w.lastSeenMtime = some time → time ∈ w.times
  read_mem : ∀ time, w.poll = .read (some time) → time ∈ w.times
  settled : w.poll ≠ .remembered → readMtime w = w.lastSeenMtime → Settled S w
  inEffect : InEffect S w

section

variable {τ : Type} {S : Watched} {w : World τ}

theorem watching_watch [Lconv] {content : Text} {root : Json} (h : S.parse content = .value root)
    (time : τ) : Watching S (watch content time root) where
  file_mem := by
    rintro _ ⟨⟩
    exact List.mem_singleton_self time
  seen_mem := by
    rintro _ ⟨⟩
    exact List.mem_singleton_self time
  read_mem := by
    rintro _ ⟨⟩
  settled := by
    intro _ _ content' config hfile _
    exact Option.some.inj hfile
  inEffect := ⟨root, h, rfl⟩

/-- After a reload, whatever time was remembered. -/
theorem Watching.reload [Lconv] (h : Watching S w) : Watching S (reloadStep S w) := by
  have hsettled : Settled S (reloadStep S w) := settled_reloadStep
  have heffect := inEffect_reloadStep h.inEffect
  refine ⟨h.file_mem, h.seen_mem, ?_, fun _ _ => hsettled, heffect⟩
  rintro _ ⟨⟩

variable [DecidableEq τ]

theorem Watching.replace [Lconv] (h : Watching S w) {time : τ} (hfresh : time ∉ w.times)
    (content : Text) : Watching S (watchStep S w (.replace content time)) where
  file_mem := by
    rintro _ ⟨⟩
    exact List.mem_cons_self
  seen_mem time' hseen := List.mem_cons_of_mem time (h.seen_mem time' hseen)
  read_mem time' hread := List.mem_cons_of_mem time (h.read_mem time' hread)
  settled := by
    intro _ hsame
    exact absurd (h.seen_mem time hsame.symm) hfresh
  inEffect := h.inEffect

theorem Watching.remove [Lconv] (h : Watching S w) : Watching S (watchStep S w .remove) where
  file_mem := by
    rintro _ ⟨⟩
  seen_mem := h.seen_mem
  read_mem := h.read_mem
  settled := by
    rintro _ _ _ _ ⟨⟩
  inEffect := h.inEffect

theorem Watching.poll [Lconv] (h : Watching S w) : Watching S (watchStep S w .poll) := by
  show Watching S (pollStep S w)
  rw [pollStep]
  split
  · show Watching S (if readMtime w = w.lastSeenMtime then w
      else { w with poll := .read (readMtime w) })
    split
    · exact h
    · next hother =>
        refine ⟨h.file_mem, h.seen_mem, ?_, fun _ hsame => absurd hsame hother, h.inEffect⟩
        intro time hread
        exact h.file_mem time (Poll.read.inj hread)
  · next current hread =>
      refine ⟨h.file_mem, ?_, ?_, fun hnot => absurd rfl hnot, h.inEffect⟩
      · intro time hseen
        exact h.read_mem time (by rw [hread, ← hseen])
      · rintro _ ⟨⟩
  · exact h.reload

theorem Watching.step [Lconv] (h : Watching S w) {e : FileEvent τ} (hfresh : Fresh w e) :
    Watching S (watchStep S w e) := by
  cases e with
  | replace content time => exact h.replace hfresh content
  | remove => exact h.remove
  | poll => exact h.poll

/-! ## Convergence -/

/-- A call leaves the time seen last as that of the file, and the file settled. -/
theorem pollOnce_spec [Lconv] (h : Watching S w) (hidle : w.poll = .idle) :
    Settled S (pollOnce S w).2 ∧ InEffect S (pollOnce S w).2 ∧
      (pollOnce S w).2.file = w.file ∧
      readMtime (pollOnce S w).2 = (pollOnce S w).2.lastSeenMtime := by
  rw [pollOnce]
  by_cases hsame : readMtime w = w.lastSeenMtime
  · rw [if_pos hsame]
    refine ⟨h.settled ?_ hsame, h.inEffect, rfl, hsame⟩
    rw [hidle]
    exact fun hnot => by cases hnot
  · rw [if_neg hsame]
    exact ⟨settled_reloadStep, inEffect_reloadStep h.inEffect, rfl, rfl⟩

/-- Without a valid content nothing is accepted. -/
theorem accepted_pollOnce [Lconv]
    (h : ∀ content, w.content = some content → accept S.parse content = none) :
    (pollOnce S w).2.accepted = w.accepted := by
  rw [pollOnce]
  by_cases hsame : readMtime w = w.lastSeenMtime
  · rw [if_pos hsame]
  · rw [if_neg hsame]
    rcases reloadStep_cases S { w with lastSeenMtime := readMtime w } with
      ⟨content, config, hfile, haccept, -⟩ | ⟨-, hstep⟩
    · rw [h content hfile] at haccept
      cases haccept
    · rw [hstep]

/-- What a call makes of a world in which the file stays as it is: a valid content is in effect, and
without one the content accepted last; and another call does not reload. -/
structure Converged [Lconv] (S : Watched) (w w' : World τ) : Prop where
  valid : ∀ content root, w.content = some content → S.parse content = .value root →
    (validate (flatten root)).ok = true → w'.config = flatten root
  rejected : (∀ content root, w.content = some content → S.parse content = .value root →
    (validate (flatten root)).ok = false) →
      w'.accepted = w.accepted ∧ ∃ root, S.parse w.accepted = .value root ∧ w'.config = flatten root
  quiet : pollOnce S w' = (false, w')

/-- After any run in which the file gets a new time whenever it is replaced, a call converges. -/
theorem converges [Lconv] {content : Text} {root : Json}
    (hload : S.parse content = .value root) (time : τ) {events : List (FileEvent τ)}
    (hfresh : Along (watchStep S) Fresh (watch content time root) events)
    (hidle : (events.foldl (watchStep S) (watch content time root)).poll = .idle) :
    Converged S (events.foldl (watchStep S) (watch content time root))
      (pollOnce S (events.foldl (watchStep S) (watch content time root))).2 := by
  have hwatching : Watching S (events.foldl (watchStep S) (watch content time root)) :=
    hfresh.invariant (watching_watch hload time) fun w e h hf => h.step hf
  generalize events.foldl (watchStep S) (watch content time root) = w at hidle hwatching
  obtain ⟨hsettled, heffect, hfile, hsame⟩ := pollOnce_spec hwatching hidle
  have hcontent : (pollOnce S w).2.content = w.content := congrArg (Option.map Prod.fst) hfile
  constructor
  · intro content root hw hparse hok
    have haccept : accept S.parse content = some (flatten root) :=
      accept_eq_some.mpr ⟨root, hparse, rfl, hok⟩
    obtain ⟨root', hparse', hconfig⟩ := heffect
    rw [hsettled content _ (hcontent.trans hw) haccept, hparse] at hparse'
    cases hparse'
    exact hconfig
  · intro hrejected
    have hkept := @accepted_pollOnce τ S w _ _ fun content hw => by
      cases haccept : accept S.parse content with
      | none => rfl
      | some config =>
          obtain ⟨root, hparse, rfl, hok⟩ := accept_eq_some.mp haccept
          rw [hrejected content root hw hparse] at hok
          cases hok
    rw [InEffect, hkept] at heffect
    exact ⟨hkept, heffect⟩
  · rw [pollOnce]
    exact if_pos hsame

end

/-- A parser at an empty object. -/
def watchedEmpty : Watched where
  parse content := if content = ascii "{}" then .value (.object []) else .parseError
  path := ascii "config/app-config.json"
  path_ne := by decide
  listeners := []
  quiet := by rintro _ ⟨⟩

/-- The file is replaced while a poll is between its steps, and that poll goes on to its end. -/
def replacedMeanwhile : List (FileEvent Nat) :=
  [.replace (ascii "\x7b") 2, .poll, .replace (ascii "{}") 3, .poll, .poll]

theorem converges_replacedMeanwhile :
    letI := Lconv.c
    Converged watchedEmpty
      (replacedMeanwhile.foldl (watchStep watchedEmpty) (watch (ascii "{}") 1 (.object [])))
      (pollOnce watchedEmpty
        (replacedMeanwhile.foldl (watchStep watchedEmpty)
          (watch (ascii "{}") 1 (.object [])))).2 := by
  refine @converges _ _ _ Lconv.c _ _ rfl 1 _ ?_ ?_
  · refine ⟨?_, trivial, ?_, trivial, trivial, trivial⟩
    · show 2 ∉ [1]
      decide
    · show 3 ∉ [2, 1]
      decide
  · rfl

end Config
