import IndustrialHmi.Integration.SerialBackend
import IndustrialHmi.Theory.Runs
import IndustrialHmi.Theory.Since

/-!
# The write queue of the serial backend

At most one write is in flight, and it is of the entry at the front of the queue.  So the sends of
a session meet their fates in the order in which they were accepted, and what was accepted and has
met none is in the queue or still posted (`Linked`).  A `stop` waits for the lock before it drops
the state of Asio, and so does a `start` that throws.  So no `send` is left between looking at the
flag and posting, and a session begins with nothing (`write_queue_law`).
-/

namespace SerialBackend

/-! ## The law -/

/-- What is discarded comes right behind a write that failed, or behind more that is discarded. -/
def DiscardedAfter (before : List Fate) (f : Fate) : Prop :=
  ∀ data, f = .discarded data → ∃ earlier g, before = earlier ++ [g] ∧ g.failed = true

/-- What a session has written is of its own sends, in the order in which they were accepted. -/
structure Orderly (session : Session) : Prop where
  /-- The first sends have met their fates.  The port has what these say, and maybe the first bytes
  of the send behind them. -/
  written : ∃ rest taken,
    withBytes session.accepted = session.fates.map Fate.data ++ rest ∧
      session.wire = session.fates.flatMap Fate.bytes ++ (rest.headD []).take taken
  discards : Each DiscardedAfter session.fates
  /-- While no write has failed, the port has a prefix of everything. -/
  unfailed : (∀ f ∈ session.fates, f.failed = false) → session.wire <+: session.accepted.flatten

/-- What a step tells of the sessions. -/
inductive Told (s s' : Backend) : Prop where
  | same (hfates : s'.session.fates = s.session.fates) (hpast : s'.past = s.past)
  | fresh (hsession : s'.session = {}) (hpast : s'.past = s.past ++ [s.session])
  | whole (data : Bytes) (hfates : s'.session.fates = s.session.fates ++ [.whole data])
      (hpast : s'.past = s.past)
  /-- A write has failed, and exactly what is queued behind it is discarded. -/
  | failed (w : Write) (hwrite : w ∈ s.io.writes) (hended : w.ended = some false)
      (hfates : s'.session.fates =
        s.session.fates ++ .cut w.data w.taken :: s.session.behind.map .discarded)
      (hpast : s'.past = s.past)

/-- No `start` is under way or has returned since the last `stop` began. -/
def Backend.Stopped (s : Backend) : Prop := s.up = false ∧ s.owner.starting = false

/-- The backend is stopped, and the call that stopped it has returned. -/
def Backend.Over (s : Backend) : Prop := s.up = false ∧ s.owner = .idle

structure Law (s : Backend) : Prop where
  oneWrite : s.io.writes.length ≤ 1
  current : Orderly s.session
  past : ∀ session ∈ s.past, Orderly session
  told : ∀ e, Told s (s.step e)
  /-- A `send` that gets the lock while the backend is stopped returns false. -/
  refuses : s.Stopped → s.sending = none →
    ∀ data, (s.step (.send data)).answers = s.answers ++ [false]
  /-- Nothing is left over for a later session. -/
  clean : s.Over → s.io = {} ∧ s.sending = none ∧ s.worker = false

/-! ## The queue -/

/-- Nothing is in flight and nothing is queued, or the front of the queue is in flight. -/
inductive Flight : List Write → List Bytes → Prop where
  | none : Flight [] []
  | one (w : Write) (rest : List Bytes) (htaken : w.taken ≤ w.data.length)
      (hdone : w.ended = some true → w.taken = w.data.length) : Flight [w] (w.data :: rest)

/-- What was accepted in the session and has met no fate is queued or posted, in this order. -/
structure Linked (io : SerialIo) (session : Session) : Prop where
  accepted : withBytes session.accepted =
    session.fates.map Fate.data ++ (io.writeQueue ++ withBytes io.posts)
  handled : withBytes session.handled = session.fates.map Fate.data ++ io.writeQueue
  flight : Flight io.writes io.writeQueue
  wire : session.wire =
    session.fates.flatMap Fate.bytes ++ io.writes.flatMap fun w => w.data.take w.taken
  discards : Each DiscardedAfter session.fates

theorem Flight.length_le {writes : List Write} {queue : List Bytes} (h : Flight writes queue) :
    writes.length ≤ 1 := by
  cases h with
  | none => exact Nat.zero_le 1
  | one w rest htaken hdone => exact Nat.le_refl 1

/-- The write that is found is the only one, and its send is at the front of the queue. -/
theorem Flight.of_get {writes : List Write} {queue : List Bytes} (h : Flight writes queue) {i : Nat}
    {w : Write} (hw : writes[i]? = some w) :
    i = 0 ∧ writes = [w] ∧ (∃ rest, queue = w.data :: rest) ∧ w.taken ≤ w.data.length ∧
      (w.ended = some true → w.taken = w.data.length) := by
  cases h with
  | none => cases hw
  | one w' rest htaken hdone =>
      cases i with
      | zero =>
          obtain rfl := Option.some.inj hw
          exact ⟨rfl, rfl, ⟨rest, rfl⟩, htaken, hdone⟩
      | succ i => cases hw

theorem withBytes_append (sends more : List Bytes) :
    withBytes (sends ++ more) = withBytes sends ++ withBytes more :=
  List.filter_append ..

theorem flatten_withBytes (sends : List Bytes) : (withBytes sends).flatten = sends.flatten := by
  induction sends with
  | nil => rfl
  | cons data sends ih =>
      cases data with
      | nil => exact ih
      | cons b data => exact congrArg (b :: data ++ ·) ih

theorem flatMap_bytes_of_unfailed {fates : List Fate} (h : ∀ f ∈ fates, f.failed = false) :
    fates.flatMap Fate.bytes = (fates.map Fate.data).flatten := by
  rw [← List.flatMap_def]
  refine List.flatMap_congr fun f hf => ?_
  cases f with
  | whole data => rfl
  | cut data taken => cases h _ hf
  | discarded data => cases h _ hf

theorem Linked.orderly {io : SerialIo} {session : Session} (h : Linked io session) :
    Orderly session := by
  have hwritten : ∃ rest taken,
      withBytes session.accepted = session.fates.map Fate.data ++ rest ∧
        session.wire = session.fates.flatMap Fate.bytes ++ (rest.headD []).take taken := by
    have hwire := h.wire
    have haccepted := h.accepted
    have hflight := h.flight
    generalize io.writes = writes at hwire hflight
    generalize io.writeQueue = queue at haccepted hflight
    cases hflight with
    | none => exact ⟨_, 0, haccepted, hwire⟩
    | one w rest htaken hdone =>
        refine ⟨_, w.taken, haccepted, ?_⟩
        rw [hwire, List.flatMap_singleton]
        rfl
  refine ⟨hwritten, h.discards, fun hunfailed => ?_⟩
  obtain ⟨rest, taken, haccepted, hwire⟩ := hwritten
  rw [← flatten_withBytes, haccepted, hwire, flatMap_bytes_of_unfailed hunfailed,
    List.flatten_append]
  refine (List.prefix_append_right_inj _).mpr ?_
  cases rest with
  | nil =>
      rw [List.headD_nil, List.take_nil]
      exact List.nil_prefix
  | cons data rest => exact (List.take_prefix _ _).trans (List.prefix_append _ _)

theorem linked_nil : Linked {} {} :=
  ⟨rfl, rfl, .none, rfl, each_nil⟩

/-! ## Handlers -/

variable {io : SerialIo} {session : Session}

/-- Bytes that were posted first come behind everything in the queue. -/
theorem Linked.enqueued {data : Bytes} {posts : List Bytes} (h : Linked io session)
    (hposts : io.posts = data :: posts) (hdata : data ≠ []) :
    withBytes session.accepted =
        session.fates.map Fate.data ++ ((io.writeQueue ++ [data]) ++ withBytes posts) ∧
      withBytes (session.handled ++ [data]) =
        session.fates.map Fate.data ++ (io.writeQueue ++ [data]) := by
  have hcons : withBytes (data :: posts) = [data] ++ withBytes posts :=
    List.filter_cons_of_pos (decide_eq_true hdata)
  have hsingle : withBytes [data] = [data] := List.filter_cons_of_pos (decide_eq_true hdata)
  constructor
  · rw [h.accepted, hposts, hcons, List.append_assoc]
  · rw [withBytes_append, h.handled, hsingle, List.append_assoc]

/-- A posted handler moves its bytes to the end of the queue, and begins a write if there is
none. -/
theorem Linked.push {data : Bytes} {posts : List Bytes} (h : Linked io session)
    (hposts : io.posts = data :: posts) :
    Linked (({ io with posts }).push data)
      { session with handled := session.handled ++ [data] } := by
  rw [SerialIo.push]
  split
  next hempty =>
    subst hempty
    refine ⟨?_, ?_, h.flight, h.wire, h.discards⟩
    · rw [h.accepted, hposts]
      rfl
    · rw [withBytes_append, h.handled]
      exact List.append_nil _
  next hdata =>
    obtain ⟨haccepted, hhandled⟩ := h.enqueued hposts hdata
    have hwire := h.wire
    have hflight := h.flight
    generalize hqueue : io.writeQueue = queue at hflight
    generalize hwrites : io.writes = writes at hflight
    cases hflight with
    | none =>
        rw [hqueue] at haccepted hhandled
        rw [hwrites] at hwire
        show Linked (SerialIo.writeNext { io with posts, writes := [], writeQueue := [data] }) _
        refine ⟨haccepted, hhandled, .one { data } [] (Nat.zero_le _) nofun, ?_, h.discards⟩
        rw [hwire]
        rfl
    | one w rest htaken hdone =>
        rw [hqueue] at haccepted hhandled
        rw [hwrites] at hwire
        have hlength : (w.data :: rest ++ [data]).length ≠ 1 := by
          rw [List.length_append, List.length_cons, List.length_singleton]
          omega
        dsimp only
        rw [if_neg hlength]
        exact ⟨haccepted, hhandled, .one w (rest ++ [data]) htaken hdone, hwire, h.discards⟩

/-- The fates that a failed write brings about follow each other. -/
theorem each_discarded {fates : List Fate} (h : Each DiscardedAfter fates) (w : Write)
    (rest : List Bytes) :
    Each DiscardedAfter (fates ++ .cut w.data w.taken :: rest.map .discarded) := by
  induction rest using List.reverseRecOn with
  | nil => exact h.concat fun data hcut => by cases hcut
  | append_singleton rest last ih =>
      rw [List.map_append, ← List.cons_append, ← List.append_assoc]
      refine ih.concat fun data _ => ?_
      rcases List.eq_nil_or_concat rest with rfl | ⟨earlier, data', rfl⟩
      · exact ⟨fates, .cut w.data w.taken, rfl, rfl⟩
      · refine ⟨fates ++ .cut w.data w.taken :: earlier.map .discarded, .discarded data', ?_, rfl⟩
        simp

/-- A write that is whole leaves what is behind it in the queue, and begins the next one. -/
theorem Linked.whole {w : Write} {rest : List Bytes} (h : Linked io session)
    (hwrites : io.writes = [w]) (hqueue : io.writeQueue = w.data :: rest)
    (hdone : w.taken = w.data.length) :
    Linked (({ io with writes := [] }).written true)
      { session with fates := session.fates ++ [.whole w.data] } := by
  have hwhole : w.data.take w.taken = w.data := List.take_of_length_le (Nat.le_of_eq hdone.symm)
  have haccepted : withBytes session.accepted =
      (session.fates ++ [Fate.whole w.data]).map Fate.data ++ (rest ++ withBytes io.posts) := by
    rw [h.accepted, hqueue, List.map_append, List.append_assoc]
    rfl
  have hhandled : withBytes session.handled =
      (session.fates ++ [Fate.whole w.data]).map Fate.data ++ rest := by
    rw [h.handled, hqueue, List.map_append, List.append_assoc]
    rfl
  have hwire : session.wire = (session.fates ++ [Fate.whole w.data]).flatMap Fate.bytes ++ [] := by
    rw [h.wire, hwrites, List.flatMap_singleton, hwhole, List.flatMap_append,
      List.flatMap_singleton, List.append_nil]
    rfl
  have hdiscards : Each DiscardedAfter (session.fates ++ [Fate.whole w.data]) :=
    h.discards.concat fun data hdiscarded => by cases hdiscarded
  rw [SerialIo.written, hqueue]
  cases rest with
  | nil => exact ⟨haccepted, hhandled, .none, hwire, hdiscards⟩
  | cons data rest =>
      exact ⟨haccepted, hhandled, .one { data } rest (Nat.zero_le _) nofun, hwire, hdiscards⟩

/-- A write that has failed clears the queue. -/
theorem Linked.cut {w : Write} {rest : List Bytes} (h : Linked io session)
    (hwrites : io.writes = [w]) (hqueue : io.writeQueue = w.data :: rest) :
    Linked (({ io with writes := [] }).written false)
      { session with
        fates := session.fates ++ .cut w.data w.taken :: rest.map .discarded } := by
  have hdata : (rest.map Fate.discarded).map Fate.data = rest :=
    (List.map_map ..).trans (List.map_id rest)
  have hnone : (rest.map Fate.discarded).flatMap Fate.bytes = [] := by
    rw [List.flatMap_map, List.flatMap_eq_nil_iff]
    exact fun _ _ => rfl
  refine ⟨?_, ?_, .none, ?_, each_discarded h.discards w rest⟩
  · rw [h.accepted, hqueue, List.map_append, List.map_cons, hdata, List.append_assoc]
    rfl
  · rw [h.handled, hqueue, List.map_append, List.map_cons, hdata]
    exact (List.append_nil _).symm
  · rw [h.wire, hwrites, List.flatMap_singleton, List.flatMap_append, List.flatMap_cons, hnone,
      List.append_nil]
    exact (List.append_nil _).symm

/-- The handler of a write takes its send off the queue, or it clears the queue. -/
theorem Linked.written {i : Nat} {w : Write} {ok : Bool} (h : Linked io session)
    (hw : io.writes[i]? = some w) (hended : w.ended = some ok) :
    Linked (({ io with writes := io.writes.eraseIdx i }).written ok)
      { session with fates := session.fates ++ Backend.fatesOf w ok io.writeQueue } := by
  obtain ⟨rfl, hwrites, ⟨rest, hqueue⟩, -, hdone⟩ := h.flight.of_get hw
  have herase : io.writes.eraseIdx 0 = [] := by rw [hwrites]; rfl
  have hfates : Backend.fatesOf w ok io.writeQueue = Backend.fatesOf w ok (w.data :: rest) := by
    rw [hqueue]
  rw [herase, hfates]
  cases ok with
  | false => exact h.cut hwrites hqueue
  | true => exact h.whole hwrites hqueue (hdone hended)

/-- The port takes bytes that come next. -/
theorem Linked.takes {i n : Nat} {w : Write} (h : Linked io session)
    (hw : io.writes[i]? = some w) (hn : w.taken + n ≤ w.data.length) (ended : Option Bool)
    (hended : ended = some true → w.taken + n = w.data.length) :
    Linked { io with writes := io.writes.set i { w with taken := w.taken + n, ended } }
      { session with wire := session.wire ++ (w.data.drop w.taken).take n } := by
  obtain ⟨haccepted, hhandled, hflight, hwire, hdiscards⟩ := h
  obtain ⟨rfl, hwrites, ⟨rest, hqueue⟩, -, -⟩ := hflight.of_get hw
  refine ⟨haccepted, hhandled, ?_, ?_, hdiscards⟩
  · dsimp only
    rw [hwrites, hqueue]
    exact .one { w with taken := w.taken + n, ended } rest hn hended
  · dsimp only
    rw [hwire, hwrites, List.set_cons_zero, List.flatMap_singleton, List.flatMap_singleton,
      List.append_assoc, List.take_add]

theorem Linked.fails {i : Nat} {w : Write} (h : Linked io session)
    (hw : io.writes[i]? = some w) :
    Linked { io with writes := io.writes.set i { w with ended := some false } } session := by
  obtain ⟨haccepted, hhandled, hflight, hwire, hdiscards⟩ := h
  obtain ⟨rfl, hwrites, ⟨rest, hqueue⟩, htaken, -⟩ := hflight.of_get hw
  refine ⟨haccepted, hhandled, ?_, ?_, hdiscards⟩
  · dsimp only
    rw [hwrites, hqueue]
    exact .one { w with ended := some false } rest htaken nofun
  · dsimp only
    rw [hwire, hwrites]
    rfl

theorem Linked.accept (h : Linked io session) (data : Bytes) :
    Linked { io with posts := io.posts ++ [data] }
      { session with accepted := session.accepted ++ [data] } := by
  refine ⟨?_, h.handled, h.flight, h.wire, h.discards⟩
  dsimp only
  rw [withBytes_append, withBytes_append, h.accepted, List.append_assoc, List.append_assoc]

/-- The state of the port and of the run has no part in it. -/
theorem Linked.port (h : Linked io session) (portOpen reading stopped : Bool) :
    Linked { io with portOpen, reading, stopped } session :=
  ⟨h.accepted, h.handled, h.flight, h.wire, h.discards⟩

/-- What is queued behind the front has been handled and has met no fate. -/
theorem Linked.behind (h : Linked io session) : session.behind = io.writeQueue.tail := by
  rw [Session.behind, h.handled, ← List.length_map Fate.data, List.drop_append,
    List.drop_eq_nil_of_le (Nat.le_succ _), List.nil_append, Nat.add_sub_cancel_left,
    List.drop_one]

/-! ## Steps -/

/-- The state of Asio is that of the current session, or there is no session and it is fresh. -/
structure Inv (s : Backend) : Prop where
  running : s.running = (s.up || s.owner.starting)
  up : s.up = true → s.owner = .idle
  linked : ¬s.Over → Linked s.io s.session
  clean : s.Over → s.io = {} ∧ s.sending = none ∧ s.worker = false
  current : Orderly s.session
  past : ∀ session ∈ s.past, Orderly session
  worker : s.worker = true → s.up = true ∨ s.owner = .closing ∨ s.owner = .stopping ∨
    s.owner = .joining

theorem inv_init : Inv {} where
  running := rfl
  up := nofun
  linked hlive := absurd ⟨rfl, rfl⟩ hlive
  clean _ := ⟨rfl, rfl, rfl⟩
  current := linked_nil.orderly
  past := nofun
  worker := nofun

variable {s s' : Backend}

theorem Inv.up_eq_false (h : Inv s) (hbusy : s.owner ≠ .idle) : s.up = false :=
  Bool.eq_false_iff.mpr fun hup => hbusy (h.up hup)

/-- Between the calls of `start` and `stop`, the flag tells whether there is a session. -/
theorem Inv.over_iff (h : Inv s) (hidle : s.owner = .idle) : s.Over ↔ s.running = false := by
  have hrunning : s.running = s.up := by
    rw [h.running, hidle]
    exact Bool.or_false s.up
  rw [hrunning]
  exact ⟨fun hover => hover.1, fun hup => ⟨hup, hidle⟩⟩

theorem Inv.live_of_busy (hbusy : s.owner ≠ .idle) : ¬s.Over := fun hover => hbusy hover.2

/-- A step inside the session, of a thread or of the port. -/
theorem Inv.inside (h : Inv s) (hlive : ¬s.Over) (hlinked : Linked s'.io s'.session)
    (hrunning : s'.running = s.running) (hworker : s'.worker = s.worker)
    (howner : s'.owner = s.owner) (hup : s'.up = s.up) (hpast : s'.past = s.past) : Inv s' where
  running := by rw [hrunning, hup, howner, h.running]
  up := by rw [hup, howner]; exact h.up
  linked _ := hlinked
  clean hover := absurd (by rw [Backend.Over, ← hup, ← howner]; exact hover) hlive
  current := hlinked.orderly
  past := by rw [hpast]; exact h.past
  worker := by rw [hworker, hup, howner]; exact h.worker

/-- A step of a call of `start` or `stop` that goes on. -/
theorem Inv.goes_on (h : Inv s) (hlinked : Linked s'.io s'.session)
    (hbusy : s'.owner ≠ .idle) (hrunning : s'.running = s'.owner.starting) (hup : s'.up = false)
    (hpast : ∀ session ∈ s'.past, session ∈ s.past ∨ session = s.session)
    (hworker : s'.worker = true → s'.owner = .closing ∨ s'.owner = .stopping ∨
      s'.owner = .joining) : Inv s' where
  running := by rw [hup, hrunning, Bool.false_or]
  up hup' := by rw [hup] at hup'; cases hup'
  linked _ := hlinked
  clean hover := absurd hover.2 hbusy
  current := hlinked.orderly
  past session hsession := by
    rcases hpast session hsession with hmem | rfl
    · exact h.past session hmem
    · exact h.current
  worker hworker' := .inr (hworker hworker')

theorem Inv.send (h : Inv s) (data : Bytes) : Inv (s.send data) := by
  rw [Backend.send]
  split
  next => exact h
  next =>
    split
    next hrunning =>
      refine { h with clean := fun hover => ?_ }
      rw [(h.over_iff hover.2).mp hover] at hrunning
      cases hrunning
    next => exact { h with }

theorem Inv.post (h : Inv s) : Inv s.post := by
  rw [Backend.post]
  split
  next => exact h
  next data hsending =>
    have hlive : ¬s.Over := fun hover => by
      rw [(h.clean hover).2.1] at hsending
      cases hsending
    exact h.inside hlive ((h.linked hlive).accept data) rfl rfl rfl rfl rfl

theorem Inv.start (h : Inv s) : Inv s.start := by
  rw [Backend.start]
  split
  next => exact h
  next hidle =>
    split
    next => exact h
    next hrunning =>
      have hover := (h.over_iff (not_not.mp hidle)).mpr (Bool.eq_false_iff.mpr hrunning)
      obtain ⟨hio, -, hworker⟩ := h.clean hover
      refine h.goes_on ?_ nofun rfl hover.1 (fun session hsession => ?_) fun hworker' => ?_
      · rw [hio]
        exact linked_nil
      · exact (List.mem_append.mp hsession).imp_right List.mem_singleton.mp
      · rw [hworker] at hworker'
        cases hworker'

theorem Inv.stop (h : Inv s) : Inv s.stop := by
  rw [Backend.stop]
  split
  next => exact h
  next hidle =>
    split
    next => exact h
    next hrunning =>
      have hlive : ¬s.Over := fun hover => by
        rw [(h.over_iff (not_not.mp hidle)).mp hover] at hrunning
        exact hrunning rfl
      exact h.goes_on (h.linked hlive) nofun rfl rfl (fun _ => .inl) fun _ => .inl rfl

/-- The thread is found by a `stop` only. -/
theorem Inv.gone (h : Inv s) (hbusy : s.owner ≠ .idle) (hclosing : s.owner ≠ .closing)
    (hstopping : s.owner ≠ .stopping) (hjoining : s.owner ≠ .joining) : s.worker = false := by
  refine Bool.eq_false_iff.mpr fun hworker => ?_
  rcases h.worker hworker with hup | hat | hat | hat
  · exact hbusy (h.up hup)
  · exact hclosing hat
  · exact hstopping hat
  · exact hjoining hat

/-- With the lock free and the thread gone, the state of Asio is replaced. -/
theorem Inv.replaceIo (h : Inv s) (howner : s.owner = .failing ∨ s.owner = .replacing) :
    Inv s.replaceIo := by
  have hne : ∀ {place : OwnerAt}, place ≠ .failing → place ≠ .replacing → s.owner ≠ place := by
    rintro place hfailing hreplacing rfl
    exact howner.elim hfailing hreplacing
  have hstarting : s.owner.starting = false := by
    rcases howner with howner | howner
    · rw [howner]
      rfl
    · rw [howner]
      rfl
  have hbusy : s.owner ≠ .idle := hne nofun nofun
  have hup := h.up_eq_false hbusy
  have hgone := h.gone hbusy (hne nofun nofun) (hne nofun nofun) (hne nofun nofun)
  rw [Backend.replaceIo]
  split
  next => exact h
  next hfree =>
    exact {
      running := by
        dsimp only
        rw [h.running, hup, hstarting]
        rfl
      up := fun _ => rfl
      linked := fun hlive => absurd ⟨hup, rfl⟩ hlive
      clean := fun _ => ⟨rfl, Option.not_isSome_iff_eq_none.mp hfree, hgone⟩
      current := h.current
      past := h.past
      worker := fun hworker => absurd (hgone.symm.trans hworker) nofun }

/-- What a `start` has reached before it launches the thread. -/
theorem Inv.of_starting (h : Inv s) (hstarting : s.owner.starting = true) :
    s.running = true ∧ s.up = false ∧ s.worker = false ∧ Linked s.io s.session := by
  have hne : ∀ {place : OwnerAt}, place.starting = false → s.owner ≠ place := by
    rintro place hplace rfl
    exact absurd (hplace.symm.trans hstarting) nofun
  have hbusy : s.owner ≠ .idle := hne rfl
  refine ⟨?_, h.up_eq_false hbusy, h.gone hbusy (hne rfl) (hne rfl) (hne rfl),
    h.linked (Inv.live_of_busy hbusy)⟩
  rw [h.running, hstarting, Bool.or_true]

/-- A `start` that has asked something of the port goes on, or it gives up. -/
theorem Inv.asked (h : Inv s) (hstarting : s.owner.starting = true) (portOpen : Bool)
    (next : OwnerAt) (hnext : next ≠ .idle) {running : Bool} (hrunning : running = next.starting) :
    Inv { s with running, io := { s.io with portOpen }, owner := next } := by
  obtain ⟨-, hup, hgone, hlinked⟩ := h.of_starting hstarting
  exact h.goes_on (hlinked.port portOpen _ _) hnext hrunning hup (fun _ => .inl)
    fun hworker => absurd (hgone.symm.trans hworker) nofun

/-- A `stop` that has not joined the thread goes on. -/
theorem Inv.stops (h : Inv s) (hbusy : s.owner ≠ .idle) (hstarting : s.owner.starting = false)
    (portOpen stopped : Bool) (next : OwnerAt) (hnext : next = .stopping ∨ next = .joining) :
    Inv { s with io := { s.io with portOpen, stopped }, owner := next } := by
  have hup := h.up_eq_false hbusy
  have hlinked := h.linked (Inv.live_of_busy hbusy)
  have hrunning : s.running = false := by
    rw [h.running, hup, hstarting]
    rfl
  refine h.goes_on (hlinked.port portOpen _ stopped) ?_ ?_ hup (fun _ => .inl) fun _ => .inr hnext
  · rcases hnext with rfl | rfl
    · nofun
    · nofun
  · rcases hnext with rfl | rfl
    · exact hrunning
    · exact hrunning

/-- The last step of a `start` launches the thread. -/
theorem Inv.launch (h : Inv s) (howner : s.owner = .launching) :
    Inv { s with
      io := { s.io with reading := true }, worker := true, owner := .idle, up := true } := by
  obtain ⟨hrunning, -, -, hlinked⟩ := h.of_starting (by rw [howner]; rfl)
  have hlinked := hlinked.port s.io.portOpen true s.io.stopped
  exact {
    running := hrunning
    up := fun _ => rfl
    linked := fun _ => hlinked
    clean := fun hover => absurd hover.1 nofun
    current := hlinked.orderly
    past := h.past
    worker := fun _ => .inl rfl }

/-- A `stop` has joined the thread. -/
theorem Inv.joined (h : Inv s) (howner : s.owner = .joining) (hworker : s.worker = false) :
    Inv { s with owner := .replacing } := by
  have hbusy : s.owner ≠ .idle := by rw [howner]; nofun
  have hup := h.up_eq_false hbusy
  have hrunning : s.running = false := by
    rw [h.running, hup, howner]
    rfl
  exact h.goes_on (h.linked (Inv.live_of_busy hbusy)) nofun hrunning hup (fun _ => .inl)
    fun hworker' => absurd (hworker.symm.trans hworker') nofun

theorem Inv.advance (h : Inv s) (ok : Bool) : Inv (s.advance ok) := by
  rw [Backend.advance]
  cases howner : s.owner with
  | idle => exact h
  | opening =>
      have hstarting : s.owner.starting = true := by rw [howner]; rfl
      have hrunning := (h.of_starting hstarting).1
      cases ok with
      | true => exact h.asked hstarting true .configuring nofun hrunning
      | false => exact h.asked hstarting s.io.portOpen .failing nofun rfl
  | configuring =>
      have hstarting : s.owner.starting = true := by rw [howner]; rfl
      have hrunning := (h.of_starting hstarting).1
      cases ok with
      | true => exact h.asked hstarting s.io.portOpen .launching nofun hrunning
      | false => exact h.asked hstarting s.io.portOpen .failing nofun rfl
  | failing => exact h.replaceIo (.inl howner)
  | launching => exact h.launch howner
  | closing =>
      exact h.stops (by rw [howner]; nofun) (by rw [howner]; rfl) (s.io.portOpen && !ok)
        s.io.stopped .stopping (.inl rfl)
  | stopping =>
      exact h.stops (by rw [howner]; nofun) (by rw [howner]; rfl) s.io.portOpen true .joining
        (.inr rfl)
  | joining =>
      cases hworker : s.worker with
      | true => exact h
      | false =>
          have hjoined := h.joined howner hworker
          rw [hworker] at hjoined
          exact hjoined
  | replacing => exact h.replaceIo (.inr howner)

/-- A write or a posted handler is found in a session only. -/
theorem Inv.live_of_write (h : Inv s) {i : Nat} {w : Write} (hw : s.io.writes[i]? = some w) :
    ¬s.Over := by
  intro hover
  rw [(h.clean hover).1] at hw
  cases hw

theorem Inv.handler (h : Inv s) : Inv s.handler := by
  rw [Backend.handler]
  split
  next => exact h
  next data posts hposts =>
    split
    next =>
      have hlive : ¬s.Over := fun hover => by
        rw [(h.clean hover).1] at hposts
        cases hposts
      exact h.inside hlive ((h.linked hlive).push hposts) rfl rfl rfl rfl rfl
    next => exact h

theorem Inv.takes (h : Inv s) (i n : Nat) : Inv (s.takes i n) := by
  rw [Backend.takes]
  split
  next => exact h
  next w hw =>
    split
    next hn =>
      have hlive := h.live_of_write hw
      have hended : (if w.taken + n = w.data.length then some true else none) = some true →
          w.taken + n = w.data.length := fun hended => by
        split at hended
        next hwhole => exact hwhole
        next => cases hended
      exact h.inside hlive ((h.linked hlive).takes hw hn.2.2 _ hended) rfl rfl rfl rfl rfl
    next => exact h

theorem Inv.fails (h : Inv s) (i : Nat) : Inv (s.fails i) := by
  rw [Backend.fails]
  split
  next => exact h
  next w hw =>
    split
    next =>
      have hlive := h.live_of_write hw
      exact h.inside hlive ((h.linked hlive).fails hw) rfl rfl rfl rfl rfl
    next => exact h

theorem Inv.completed (h : Inv s) (i : Nat) : Inv (s.completed i) := by
  rw [Backend.completed]
  split
  next => exact h
  next w hw =>
    split
    next => exact h
    next ok hended =>
      split
      next =>
        have hlive := h.live_of_write hw
        exact h.inside hlive ((h.linked hlive).written hw hended) rfl rfl rfl rfl rfl
      next => exact h

theorem Inv.readFails (h : Inv s) : Inv s.readFails where
  running := h.running
  up := h.up
  linked hlive := (h.linked hlive).port _ false _
  clean hover := by
    obtain ⟨hio, hsending, hworker⟩ := h.clean hover
    refine ⟨?_, hsending, hworker⟩
    rw [Backend.readFails, hio]
  current := h.current
  past := h.past
  worker := h.worker

theorem Inv.runReturns (h : Inv s) : Inv s.runReturns := by
  rw [Backend.runReturns]
  split
  next =>
    exact { h with
      clean := fun hover => ⟨(h.clean hover).1, (h.clean hover).2.1, rfl⟩
      worker := nofun }
  next => exact h

theorem Inv.step (h : Inv s) (e : Event) : Inv (s.step e) := by
  cases e with
  | send data => exact h.send data
  | post => exact h.post
  | start => exact h.start
  | stop => exact h.stop
  | advance ok => exact h.advance ok
  | handler => exact h.handler
  | takes i n => exact h.takes i n
  | fails i => exact h.fails i
  | completed i => exact h.completed i
  | readFails => exact h.readFails
  | runReturns => exact h.runReturns

/-! ## What a step tells -/

theorem Told.replaceIo (s : Backend) : Told s s.replaceIo := by
  rw [Backend.replaceIo]
  split
  next => exact .same rfl rfl
  next => exact .same rfl rfl

theorem Told.advance (s : Backend) (ok : Bool) : Told s (s.advance ok) := by
  rw [Backend.advance]
  cases s.owner with
  | opening | configuring =>
      cases ok with
      | true => exact .same rfl rfl
      | false => exact .same rfl rfl
  | failing | replacing => exact .replaceIo s
  | joining =>
      dsimp only
      split
      next => exact .same rfl rfl
      next => exact .same rfl rfl
  | idle | launching | closing | stopping => exact .same rfl rfl

/-- The handler of a write tells of the sends that it takes off the queue. -/
theorem Inv.told_completed (h : Inv s) (i : Nat) : Told s (s.completed i) := by
  rw [Backend.completed]
  split
  next => exact .same rfl rfl
  next w hw =>
    split
    next => exact .same rfl rfl
    next ok hended =>
      split
      next =>
        cases ok with
        | true => exact .whole w.data rfl rfl
        | false =>
            refine .failed w (List.mem_of_getElem? hw) hended ?_ rfl
            rw [(h.linked (h.live_of_write hw)).behind]
            rfl
      next => exact .same rfl rfl

theorem Inv.told (h : Inv s) (e : Event) : Told s (s.step e) := by
  cases e with
  | send data =>
      rw [Backend.step, Backend.send]
      split_ifs <;> exact .same rfl rfl
  | post =>
      rw [Backend.step, Backend.post]
      split <;> exact .same rfl rfl
  | start =>
      rw [Backend.step, Backend.start]
      split_ifs
      next => exact .same rfl rfl
      next => exact .same rfl rfl
      next => exact .fresh rfl rfl
  | stop =>
      rw [Backend.step, Backend.stop]
      split_ifs <;> exact .same rfl rfl
  | advance ok => exact .advance s ok
  | handler =>
      rw [Backend.step, Backend.handler]
      split
      next => exact .same rfl rfl
      next => split_ifs <;> exact .same rfl rfl
  | takes i n =>
      rw [Backend.step, Backend.takes]
      split
      next => exact .same rfl rfl
      next => split_ifs <;> exact .same rfl rfl
  | fails i =>
      rw [Backend.step, Backend.fails]
      split
      next => exact .same rfl rfl
      next => split_ifs <;> exact .same rfl rfl
  | completed i => exact h.told_completed i
  | readFails => exact .same rfl rfl
  | runReturns =>
      rw [Backend.step, Backend.runReturns]
      split_ifs <;> exact .same rfl rfl

/-! ## Runs -/

theorem Inv.oneWrite (h : Inv s) : s.io.writes.length ≤ 1 := by
  by_cases hover : s.Over
  · rw [(h.clean hover).1]
    exact Nat.zero_le 1
  · exact (h.linked hover).flight.length_le

theorem Inv.refuses (h : Inv s) (hstopped : s.Stopped) (hfree : s.sending = none) (data : Bytes) :
    (s.step (.send data)).answers = s.answers ++ [false] := by
  have hrunning : s.running = false := by
    rw [h.running, hstopped.1, hstopped.2]
    rfl
  rw [Backend.step, Backend.send, hfree, hrunning]
  rfl

theorem Inv.law (h : Inv s) : Law s where
  oneWrite := h.oneWrite
  current := h.current
  past := h.past
  told := h.told
  refuses hstopped hfree := h.refuses hstopped hfree
  clean := h.clean

/-- After any interleaving of calls, handlers and the port, the law of the write queue holds. -/
theorem write_queue_law (events : List Event) : Law (events.foldl Backend.step {}) :=
  (Runs.invariant inv_init (fun _ e h => h.step e) events).law

/-- A write that fails after its first byte takes the send behind it along. -/
example :
    let s := ([.start, .advance true, .send [1, 2], .post, .advance true, .advance true, .handler,
      .send [3], .post, .handler, .takes 0 1, .fails 0, .completed 0] : List Event).foldl
        Backend.step {}
    s.session.fates = [.cut [1, 2] 1, .discarded [3]] ∧ s.session.wire = [1] := by
  decide

end SerialBackend
