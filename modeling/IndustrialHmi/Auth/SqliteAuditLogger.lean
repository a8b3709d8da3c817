import IndustrialHmi.Auth.User
import IndustrialHmi.Historian.NewestRows
import IndustrialHmi.Theory.Calendar

/-!
# The audit log

`record` stamps an event with the second it is in and inserts it.  `query` puts a statement
together from the filters that are not empty and binds their values by position.  Its rows are
ordered by their stamps alone; how rows of the same stamp are ordered is up to the database.

So the events come back in the reverse order of recording exactly if no event among those that are
asked for has the stamp of an older one that is different (`query_newestMatching_iff`).  An operator
who signs in and out within a second is enough.
-/

namespace Auth

open Historian (boundLimit boundLimit_of_lt boundLimit_of_ge)

/-! ## The log -/

/-- An event with its timestamp, as a caller hands it over and as it is stored. -/
structure StampedEvent extends AuditEvent where
  timestamp : Text := []
  deriving DecidableEq

/-- The rows of the table, oldest first, if the database is open. -/
structure SqliteAuditLogger where
  db : Option (List StampedEvent) := none

/-- What the clock shows, to the second. -/
def nowIso8601 (now : ℤ) : Text := (Calendar.gmtime now).text

/-- `done` says whether the statement was prepared and stepped to its end. -/
def SqliteAuditLogger.record (s : SqliteAuditLogger) (event : StampedEvent) (now : ℤ)
    (done : Bool) : Bool × SqliteAuditLogger :=
  match s.db with
  | none => (false, s)
  | some rows =>
      let ts := if event.timestamp = [] then nowIso8601 now else event.timestamp
      if done then (true, ⟨some (rows ++ [{ event with timestamp := ts }])⟩) else (false, s)

/-! ## Statements -/

/-- The columns that a clause may name. -/
inductive Column where
  | ts
  | category
  | action
  | result
  | username

def Column.read : Column → StampedEvent → Text
  | .ts, e => e.timestamp
  | .category, e => e.category
  | .action, e => e.action
  | .result, e => e.result
  | .username, e => e.username

inductive Comparison where
  | ge
  | le
  | eq

/-- Texts are compared byte by byte. -/
def Comparison.holds : Comparison → Text → Text → Bool
  | .ge, stored, value => value ≤ stored
  | .le, stored, value => stored ≤ value
  | .eq, stored, value => stored = value

/-- A clause compares a column with one placeholder. -/
structure Clause where
  column : Column
  comparison : Comparison

def Clause.holds (clause : Clause) (row : StampedEvent) (value : Text) : Bool :=
  clause.comparison.holds (clause.column.read row) value

/-- What is bound to a placeholder. -/
inductive Param where
  | text (t : Text)
  | int64 (i : ℤ)

/-- The clauses take what is bound one after the other.  Nothing compares with what is not. -/
def whereHolds (row : StampedEvent) : List Clause → List Param → Bool
  | [], _ => true
  | clause :: clauses, .text value :: params =>
      clause.holds row value && whereHolds row clauses params
  | _ :: _, _ => false

/-- `ORDER BY ts DESC` -/
def newerFirst (e e' : StampedEvent) : Bool := e'.timestamp ≤ e.timestamp

/-- The rows of a statement.  The placeholder of the limit is behind those of the clauses, and a
negative limit is none. -/
def selectRows (order : Sorting newerFirst) (rows : List StampedEvent) (clauses : List Clause)
    (params : List Param) : List StampedEvent :=
  match params[clauses.length]? with
  | some (.int64 limit) =>
      let selected := order.run (rows.filter fun row => whereHolds row clauses params)
      if limit < 0 then selected else selected.take limit.toNat
  | _ => []

/-! ## The query -/

structure AuditQuery where
  fromTs : Text := []
  toTs : Text := []
  category : Text := []
  action : Text := []
  result : Text := []
  username : Text := []
  /-- Zero is no limit. -/
  limit : Nat := 500

def appendClause (clause : Clause) (value : Text) (sql : List Clause × List Text) :
    List Clause × List Text :=
  if value = [] then sql else (sql.1 ++ [clause], sql.2 ++ [value])

/-- The clauses of the statement and the values for them. -/
def buildSelectSql (q : AuditQuery) : List Clause × List Text :=
  let sql := ([], [])
  let sql := appendClause ⟨.ts, .ge⟩ q.fromTs sql
  let sql := appendClause ⟨.ts, .le⟩ q.toTs sql
  let sql := appendClause ⟨.category, .eq⟩ q.category sql
  let sql := appendClause ⟨.action, .eq⟩ q.action sql
  let sql := appendClause ⟨.result, .eq⟩ q.result sql
  appendClause ⟨.username, .eq⟩ q.username sql

/-- A column is read up to its first zero byte. -/
def columnText (t : Text) : Text := t.takeWhile (· ≠ 0)

def extractEvent (row : StampedEvent) : StampedEvent where
  timestamp := columnText row.timestamp
  username := columnText row.username
  role := columnText row.role
  category := columnText row.category
  action := columnText row.action
  details := columnText row.details
  result := columnText row.result

def SqliteAuditLogger.query (s : SqliteAuditLogger) (order : Sorting newerFirst) (q : AuditQuery) :
    List StampedEvent :=
  match s.db with
  | none => []
  | some rows =>
      let sql := buildSelectSql q
      let params := sql.2.map Param.text ++ [.int64 (boundLimit q.limit)]
      (selectRows order rows sql.1 params).map extractEvent

/-! ## What a query should answer -/

/-- The event passes every filter that is not empty. -/
structure Satisfies (q : AuditQuery) (e : StampedEvent) : Prop where
  fromTs : q.fromTs ≠ [] → q.fromTs ≤ e.timestamp
  toTs : q.toTs ≠ [] → e.timestamp ≤ q.toTs
  category : q.category ≠ [] → e.category = q.category
  action : q.action ≠ [] → e.action = q.action
  result : q.result ≠ [] → e.result = q.result
  username : q.username ≠ [] → e.username = q.username

instance (q : AuditQuery) (e : StampedEvent) : Decidable (Satisfies q e) :=
  decidable_of_iff
    ((q.fromTs ≠ [] → q.fromTs ≤ e.timestamp) ∧ (q.toTs ≠ [] → e.timestamp ≤ q.toTs) ∧
      (q.category ≠ [] → e.category = q.category) ∧ (q.action ≠ [] → e.action = q.action) ∧
      (q.result ≠ [] → e.result = q.result) ∧ (q.username ≠ [] → e.username = q.username))
    ⟨fun ⟨hfrom, hto, hcategory, haction, hresult, husername⟩ =>
      ⟨hfrom, hto, hcategory, haction, hresult, husername⟩,
     fun h => ⟨h.fromTs, h.toTs, h.category, h.action, h.result, h.username⟩⟩

/-- The events that match, newest first. -/
def newestFirst (q : AuditQuery) (recorded : List StampedEvent) : List StampedEvent :=
  (recorded.filter fun e => Satisfies q e).reverse

/-- As many of them as are asked for. -/
def newestMatching (q : AuditQuery) (recorded : List StampedEvent) : List StampedEvent :=
  if q.limit = 0 then newestFirst q recorded else (newestFirst q recorded).take q.limit

/-! ## Orders -/

theorem newerFirst_trans (a b c : StampedEvent) (h : newerFirst a b = true)
    (h' : newerFirst b c = true) : newerFirst a c = true :=
  decide_eq_true (List.le_trans (of_decide_eq_true h') (of_decide_eq_true h))

/-- The order of a stable sort: rows of the same stamp stay as they were inserted. -/
def stableOrder : Sorting newerFirst :=
  Sorting.merge newerFirst_trans fun a b => by
    rcases List.le_total b.timestamp a.timestamp with h | h
    · rw [newerFirst, decide_eq_true h]
      rfl
    · rw [Bool.or_comm, newerFirst, decide_eq_true h]
      rfl

/-! ## The clauses -/

/-- The filters with their values, empty ones too. -/
def filters (q : AuditQuery) : List (Clause × Text) :=
  [(⟨.ts, .ge⟩, q.fromTs), (⟨.ts, .le⟩, q.toTs), (⟨.category, .eq⟩, q.category),
    (⟨.action, .eq⟩, q.action), (⟨.result, .eq⟩, q.result), (⟨.username, .eq⟩, q.username)]

theorem appendClause_unzip (clause : Clause) (value : Text) (sql : List (Clause × Text)) :
    appendClause clause value (sql.map Prod.fst, sql.map Prod.snd) =
      ((sql ++ [(clause, value)].filter fun f => f.2 ≠ []).map Prod.fst,
        (sql ++ [(clause, value)].filter fun f => f.2 ≠ []).map Prod.snd) := by
  rw [appendClause]
  cases value with
  | nil => simp
  | cons b t => simp

/-- The statement has the filters that are not empty, each with its own value. -/
theorem buildSelectSql_eq (q : AuditQuery) :
    buildSelectSql q = (((filters q).filter fun f => f.2 ≠ []).map Prod.fst,
      ((filters q).filter fun f => f.2 ≠ []).map Prod.snd) := by
  rw [buildSelectSql, show (([], []) : List Clause × List Text) =
      (([] : List (Clause × Text)).map Prod.fst, ([] : List (Clause × Text)).map Prod.snd) from rfl]
  simp only [appendClause_unzip, List.append_assoc, ← List.filter_append]
  rfl

theorem whereHolds_unzip (row : StampedEvent) (sql : List (Clause × Text)) (more : List Param) :
    whereHolds row (sql.map Prod.fst) ((sql.map Prod.snd).map Param.text ++ more) =
      sql.all fun f => f.1.holds row f.2 := by
  induction sql with
  | nil => rfl
  | cons f sql ih =>
      rw [List.map_cons, List.map_cons, List.map_cons, List.cons_append, whereHolds, ih,
        List.all_cons]

theorem all_filters_iff (q : AuditQuery) (row : StampedEvent) :
    (((filters q).filter fun f => f.2 ≠ []).all fun f => f.1.holds row f.2) = true ↔
      Satisfies q row := by
  simp only [List.all_eq_true, List.mem_filter, decide_eq_true_eq, and_imp]
  constructor
  · intro h
    exact ⟨fun hne => of_decide_eq_true (h (⟨.ts, .ge⟩, q.fromTs) (by simp [filters]) hne),
      fun hne => of_decide_eq_true (h (⟨.ts, .le⟩, q.toTs) (by simp [filters]) hne),
      fun hne => of_decide_eq_true (h (⟨.category, .eq⟩, q.category) (by simp [filters]) hne),
      fun hne => of_decide_eq_true (h (⟨.action, .eq⟩, q.action) (by simp [filters]) hne),
      fun hne => of_decide_eq_true (h (⟨.result, .eq⟩, q.result) (by simp [filters]) hne),
      fun hne => of_decide_eq_true (h (⟨.username, .eq⟩, q.username) (by simp [filters]) hne)⟩
  · intro h f hf hne
    simp only [filters, List.mem_cons, List.not_mem_nil, or_false] at hf
    rcases hf with rfl | rfl | rfl | rfl | rfl | rfl
    · exact decide_eq_true (h.fromTs hne)
    · exact decide_eq_true (h.toTs hne)
    · exact decide_eq_true (h.category hne)
    · exact decide_eq_true (h.action hne)
    · exact decide_eq_true (h.result hne)
    · exact decide_eq_true (h.username hne)

/-! ## Recording -/

/-- An event without a timestamp, the second it is recorded in, and whether the insert is done. -/
structure Recording where
  event : AuditEvent
  now : ℤ
  done : Bool

def Recording.stamped (r : Recording) : StampedEvent where
  toAuditEvent := r.event
  timestamp := nowIso8601 r.now

def SqliteAuditLogger.recordAll (s : SqliteAuditLogger) (rs : List Recording) :
    SqliteAuditLogger :=
  rs.foldl (fun s r => (s.record { toAuditEvent := r.event } r.now r.done).2) s

/-- The events that `record` returned true for. -/
def recorded (rs : List Recording) : List StampedEvent :=
  (rs.filter Recording.done).map Recording.stamped

theorem record_opened (rows : List StampedEvent) (r : Recording) :
    (⟨some rows⟩ : SqliteAuditLogger).record { toAuditEvent := r.event } r.now r.done =
      (r.done, ⟨some (rows ++ recorded [r])⟩) := by
  rw [SqliteAuditLogger.record, recorded]
  cases hdone : r.done with
  | false => simp [hdone]
  | true =>
      rw [List.filter_cons_of_pos hdone]
      rfl

theorem recordAll_opened (rows : List StampedEvent) (rs : List Recording) :
    (⟨some rows⟩ : SqliteAuditLogger).recordAll rs = ⟨some (rows ++ recorded rs)⟩ := by
  induction rs generalizing rows with
  | nil =>
      rw [recorded, List.filter_nil, List.map_nil, List.append_nil]
      rfl
  | cons r rs ih =>
      rw [SqliteAuditLogger.recordAll, List.foldl_cons, record_opened,
        ← SqliteAuditLogger.recordAll, ih, List.append_assoc, recorded, recorded, recorded,
        ← List.map_append, ← List.filter_append, List.singleton_append]

/-! ## Zero bytes -/

/-- No string of the event has a zero byte. -/
def AuditEvent.NoNul (e : AuditEvent) : Prop :=
  ∀ t ∈ [e.username, e.role, e.category, e.action, e.details, e.result], t.All (· ≠ 0)

instance (e : AuditEvent) : Decidable e.NoNul := inferInstanceAs (Decidable (∀ t ∈ _, _))

theorem columnText_of_noNul {t : Text} (h : t.All (· ≠ 0)) : columnText t = t :=
  List.takeWhile_eq_self_iff.mpr fun b hb => decide_eq_true (h b hb)

theorem nowIso8601_noNul (now : ℤ) : (nowIso8601 now).All (· ≠ 0) :=
  Calendar.text_noNul now

theorem extractEvent_stamped {r : Recording} (h : r.event.NoNul) :
    extractEvent r.stamped = r.stamped := by
  simp only [AuditEvent.NoNul, List.forall_mem_cons] at h
  obtain ⟨husername, hrole, hcategory, haction, hdetails, hresult, -⟩ := h
  simp only [extractEvent, Recording.stamped]
  rw [columnText_of_noNul husername, columnText_of_noNul hrole, columnText_of_noNul hcategory,
    columnText_of_noNul haction, columnText_of_noNul hdetails, columnText_of_noNul hresult,
    columnText_of_noNul (nowIso8601_noNul r.now)]

theorem map_extractEvent {rs : List Recording} (h : ∀ r ∈ rs, r.event.NoNul)
    {out : List StampedEvent} (hout : ∀ e ∈ out, e ∈ recorded rs) :
    out.map extractEvent = out := by
  refine (List.map_congr_left fun e he => ?_).trans (List.map_id out)
  obtain ⟨r, hr, rfl⟩ := List.mem_map.mp (hout e he)
  exact extractEvent_stamped (h r (List.mem_filter.mp hr).1)

/-! ## The answer -/

/-- How many of `n` events a query asks for. -/
def asked (q : AuditQuery) (n : Nat) : Nat := if q.limit = 0 then n else q.limit

theorem newestMatching_eq_take (q : AuditQuery) (events : List StampedEvent) :
    newestMatching q events =
      (newestFirst q events).take (asked q (newestFirst q events).length) := by
  rw [newestMatching, asked]
  split
  next => exact List.take_length.symm
  next => rfl

theorem newestFirst_perm (q : AuditQuery) (events : List StampedEvent) :
    (newestFirst q events).Perm (events.filter fun e => Satisfies q e) :=
  List.reverse_perm _

/-- The limit is bound as a signed number, and all rows are returned where that is not positive. -/
theorem selectRows_built (order : Sorting newerFirst) (rows : List StampedEvent) {q : AuditQuery}
    (hsize : q.limit < 2 ^ 64) :
    selectRows order rows (buildSelectSql q).1
        ((buildSelectSql q).2.map Param.text ++ [.int64 (boundLimit q.limit)]) =
      if q.limit = 0 ∨ 2 ^ 63 ≤ q.limit then order.run (rows.filter fun e => Satisfies q e)
      else (order.run (rows.filter fun e => Satisfies q e)).take q.limit := by
  have hfilter : ∀ more, (fun row => whereHolds row (buildSelectSql q).1
      ((buildSelectSql q).2.map Param.text ++ more)) = fun e => decide (Satisfies q e) := by
    intro more
    funext row
    rw [buildSelectSql_eq, whereHolds_unzip, ← Bool.coe_iff_coe, all_filters_iff,
      decide_eq_true_eq]
  have hlimit : ((buildSelectSql q).2.map Param.text ++
      [Param.int64 (boundLimit q.limit)])[(buildSelectSql q).1.length]? =
        some (.int64 (boundLimit q.limit)) := by
    rw [buildSelectSql_eq]
    simp
  rw [selectRows, hlimit]
  dsimp only
  rw [hfilter]
  by_cases hzero : q.limit = 0
  · rw [if_pos (Or.inl hzero), hzero]
    rfl
  · rcases Nat.lt_or_ge q.limit (2 ^ 63) with hlt | hge
    · rw [boundLimit_of_lt hzero hlt, if_neg (by omega), if_neg (by omega), Int.toNat_natCast]
    · rw [if_pos (boundLimit_of_ge hge hsize), if_pos (Or.inr hge)]

/-- What a query returns of the events that were recorded. -/
theorem query_recordAll (order : Sorting newerFirst) {rs : List Recording} {q : AuditQuery}
    (hnul : ∀ r ∈ rs, r.event.NoNul) (hsize : q.limit < 2 ^ 64) :
    ((⟨some []⟩ : SqliteAuditLogger).recordAll rs).query order q =
      if q.limit = 0 ∨ 2 ^ 63 ≤ q.limit then
        order.run ((recorded rs).filter fun e => Satisfies q e)
      else (order.run ((recorded rs).filter fun e => Satisfies q e)).take q.limit := by
  have hmem : ∀ e ∈ order.run ((recorded rs).filter fun e => Satisfies q e), e ∈ recorded rs :=
    fun e he => (List.mem_filter.mp ((order.perm _).subset he)).1
  rw [recordAll_opened, List.nil_append, SqliteAuditLogger.query]
  dsimp only
  rw [selectRows_built order _ hsize]
  split
  next => exact map_extractEvent hnul hmem
  next => exact map_extractEvent hnul fun e he => hmem e (List.mem_of_mem_take he)

/-- Unless the cast takes away a limit that matters, a query returns as many rows as it asks
for. -/
theorem query_eq_take (order : Sorting newerFirst) {rs : List Recording} {q : AuditQuery}
    (hnul : ∀ r ∈ rs, r.event.NoNul) (hsize : q.limit < 2 ^ 64)
    (hlimit : q.limit < 2 ^ 63 ∨ (newestFirst q (recorded rs)).length ≤ q.limit) :
    ((⟨some []⟩ : SqliteAuditLogger).recordAll rs).query order q =
      (order.run ((recorded rs).filter fun e => Satisfies q e)).take
        (asked q (newestFirst q (recorded rs)).length) := by
  have hlength : (order.run ((recorded rs).filter fun e => Satisfies q e)).length =
      (newestFirst q (recorded rs)).length :=
    ((order.perm _).trans (newestFirst_perm q _).symm).length_eq
  rw [query_recordAll order hnul hsize, asked]
  by_cases hzero : q.limit = 0
  · rw [if_pos (Or.inl hzero), if_pos hzero, ← hlength, List.take_length]
  · rw [if_neg hzero]
    rcases hlimit with hlt | hle
    · rw [if_neg (by omega)]
    · split
      next => exact (List.take_of_length_le (hlength.trans_le hle)).symm
      next => rfl

/-- Whatever the order of ties, the newest events that match come back in the reverse order of
recording, if and only if no event that is asked for has the stamp of another one behind it, or an
earlier one, and the limit is one after the cast or is not reached. -/
theorem query_newestMatching_iff (rs : List Recording) (q : AuditQuery)
    (hnul : ∀ r ∈ rs, r.event.NoNul) (hsize : q.limit < 2 ^ 64) :
    (∀ order : Sorting newerFirst,
        ((⟨some []⟩ : SqliteAuditLogger).recordAll rs).query order q =
          newestMatching q (recorded rs)) ↔
      Settled newerFirst (asked q (newestFirst q (recorded rs)).length)
          (newestFirst q (recorded rs)) ∧
        (q.limit < 2 ^ 63 ∨ (newestFirst q (recorded rs)).length ≤ q.limit) := by
  rw [newestMatching_eq_take]
  by_cases hlimit : q.limit < 2 ^ 63 ∨ (newestFirst q (recorded rs)).length ≤ q.limit
  · simp only [query_eq_take _ hnul hsize hlimit]
    rw [and_iff_left hlimit]
    exact take_run_eq_iff stableOrder newerFirst_trans _ (newestFirst_perm q _)
  · rw [not_or] at hlimit
    refine iff_of_false (fun h => ?_) fun h => not_or.mpr hlimit h.2
    have hlength := congrArg List.length (h stableOrder)
    rw [query_recordAll _ hnul hsize, if_pos (Or.inr (Nat.not_lt.mp hlimit.1)), asked,
      if_neg (by omega), List.length_take,
      ((stableOrder.perm _).trans (newestFirst_perm q _).symm).length_eq] at hlength
    omega

/-! ## Seconds -/

/-- While the year has four digits, a stamp is earlier exactly if its second is. -/
theorem newerFirst_stamped {r r' : Recording} (h : Calendar.FourDigits r.now)
    (h' : Calendar.FourDigits r'.now) :
    newerFirst r.stamped r'.stamped = false ↔ r.now < r'.now := by
  rw [← Calendar.text_lt_text h h', newerFirst, decide_eq_false_iff_not]
  exact not_not

/-- Events in different seconds, recorded in the order of these, are settled for every query. -/
theorem settled_of_seconds {rs : List Recording} (hclock : ∀ r ∈ rs, Calendar.FourDigits r.now)
    (h : rs.Pairwise fun r r' => r.now < r'.now) (q : AuditQuery) (k : Nat) :
    Settled newerFirst k (newestFirst q (recorded rs)) := by
  refine settled_of_pairwise ?_ k
  rw [newestFirst, List.pairwise_reverse]
  refine List.Pairwise.filter _ (List.pairwise_map.mpr (List.Pairwise.filter _ ?_))
  exact h.imp_of_mem fun hr hr' hlt => (newerFirst_stamped (hclock _ hr) (hclock _ hr')).mpr hlt

/-- Someone signs in and out. -/
def signInAndOut (signIn signOut : ℤ) : List Recording :=
  [⟨⟨ascii "alice", ascii "OPERATOR", Category.kAuth, ascii "LOGIN", [], Outcome.kSuccess⟩, signIn,
      true⟩,
    ⟨⟨ascii "alice", ascii "OPERATOR", Category.kAuth, ascii "LOGOUT", [], Outcome.kSuccess⟩,
      signOut, true⟩]

theorem query_sign_out_later :
    ((⟨some []⟩ : SqliteAuditLogger).recordAll (signInAndOut 1709209845 1709209846)).query
        stableOrder { category := Category.kAuth } =
      newestMatching { category := Category.kAuth }
        (recorded (signInAndOut 1709209845 1709209846)) :=
  (query_newestMatching_iff (signInAndOut 1709209845 1709209846) { category := Category.kAuth }
    (by decide) (by decide)).mpr
    ⟨settled_of_seconds (by decide) (by simp [signInAndOut]) _ _, Or.inl (by decide)⟩ stableOrder

/-- Within a second, the last event of the log may be the one before it. -/
theorem sign_in_returned_for_sign_out :
    ¬ ∀ order : Sorting newerFirst,
      ((⟨some []⟩ : SqliteAuditLogger).recordAll (signInAndOut 1709209845 1709209845)).query order
          { limit := 1 } =
        newestMatching { limit := 1 } (recorded (signInAndOut 1709209845 1709209845)) := by
  intro h
  have hsorted : (recorded (signInAndOut 1709209845 1709209845)).Pairwise
      fun e e' => newerFirst e e' = true := by decide +kernel
  have hquery := h (stableOrder.override _ (List.Perm.refl _) hsorted)
  rw [query_recordAll _ (by decide) (by decide), if_neg (by decide),
    show ((recorded (signInAndOut 1709209845 1709209845)).filter fun e =>
      Satisfies { limit := 1 } e) = recorded (signInAndOut 1709209845 1709209845) from rfl,
    Sorting.run_override] at hquery
  revert hquery
  decide +kernel

end Auth
