import IndustrialHmi.Historian.NewestRows
import IndustrialHmi.Mcp.McpServer

/-!
# The bound of historian_query

The tool cuts the limit of its arguments down to a default and hands it to the store, where zero
is no limit at all.  A limit that is read as zero passes the cut, and the query is as long as the
archive has rows (`queryBounded_iff`).  A negative limit is read as a large one, and is cut.

A number with an exponent that is too large for the type is cast all the same, and what that gives
is up to the build.  There are builds where it is zero (`zero_limit_unbounded`).
-/

namespace Mcp

open Historian JsonText

variable {σ : Type}

/-- The services with the store of an archive as the reader.  The range is routed to a table;
which one makes no difference to the bound. -/
def withStore (S : Services σ) (archive : σ → Database Double)
    (order : Sorting (newerFirst (ν := Double))) (tier : QueryRange → Tier) : Services σ :=
  { S with
    query := fun field entityId range w =>
      (select order ((archive w).tables (tier range)) field entityId range, w) }

/-! ## What is asked -/

/-- The arguments ask for a positive number of rows. -/
def Asks (args : Json) (n : Nat) : Prop :=
  0 < n ∧ ∃ j, args.find (ascii "limit") = some j ∧
    (j = .integer n ∨ j = .unsigned n ∨ ∃ d, j = .float d ∧ d.value = some (n : ℚ))

/-- The limit of the arguments is read as zero. -/
def ZeroLimit (S : Services σ) (args : Json) : Prop :=
  ∃ j, args.find (ascii "limit") = some j ∧ j.asUInt64 S.casts = some 0

/-- The rows are no more than the default, and no more than a positive number that was asked
for. -/
structure Bounded (args : Json) (rows : List Json) : Prop where
  default : rows.length ≤ kDefaultLimit
  asked : ∀ n, Asks args n → rows.length ≤ n

/-! ## The limit that reaches the store -/

/-- An argument that was accepted is an object with a limit that converts, or none. -/
theorem limit_of_parse {S : Services σ} {args : Json} {parsed : HistorianQueryArgs}
    (h : parseHistorianArgs S args = some (.ok parsed)) :
    ∃ requested, args.value (Json.asUInt64 S.casts) (ascii "limit") kDefaultLimit = some requested ∧
      parsed.range.limit = min requested kDefaultLimit := by
  cases args with
  | object members =>
      simp only [parseHistorianArgs, Option.bind_eq_bind, Option.bind_eq_some_iff] at h
      obtain ⟨fieldStr, -, h⟩ := h
      cases hfield : fieldFromName fieldStr with
      | none => rw [hfield] at h; cases h
      | some field =>
          rw [hfield] at h
          simp only [Option.bind_eq_some_iff] at h
          obtain ⟨entityId, -, fromMs, -, toMs, -, requested, hrequested, h⟩ := h
          cases h
          exact ⟨requested, hrequested, rfl⟩
  | _ => cases h

theorem value_eq_of_find {args : Json} {name : Text} {j : Json} (h : args.find name = some j)
    {α : Type} (convert : Json → Option α) (default : α) :
    args.value convert name default = convert j := by
  cases args with
  | object members => rw [Json.value, show members.lookup name = some j from h]
  | _ => cases h

/-- The limit that reaches the store is zero exactly if the arguments have one that is read as
zero. -/
theorem limit_eq_zero_iff {S : Services σ} {args : Json} {parsed : HistorianQueryArgs}
    (h : parseHistorianArgs S args = some (.ok parsed)) :
    parsed.range.limit = 0 ↔ ZeroLimit S args := by
  obtain ⟨requested, hrequested, hlimit⟩ := limit_of_parse h
  have hzero : parsed.range.limit = 0 ↔ requested = 0 := by
    rw [hlimit, kDefaultLimit]
    omega
  rw [hzero]
  constructor
  · rintro rfl
    cases hfind : args.find (ascii "limit") with
    | some j => exact ⟨j, hfind, (value_eq_of_find hfind _ _).symm.trans hrequested⟩
    | none =>
        -- the default is not zero
        cases args with
        | object members =>
            rw [Json.value, show members.lookup (ascii "limit") = none from hfind] at hrequested
            cases hrequested
        | _ => cases h
  · rintro ⟨j, hfind, hj⟩
    rw [value_eq_of_find hfind, hj] at hrequested
    exact (Option.some.inj hrequested).symm

/-- A positive number that is asked for and that the type holds is read as it is.  Any other is read
modulo the size of the type, or as what the cast gives of it. -/
theorem asUInt64_of_asks {S : Services σ} {args : Json} {n : Nat} (h : Asks args n) :
    ∃ requested, args.value (Json.asUInt64 S.casts) (ascii "limit") kDefaultLimit =
      some requested ∧ (n < 2 ^ 64 → requested = n) := by
  obtain ⟨-, j, hfind, hj⟩ := h
  have hwrap : n < 2 ^ 64 → ((n : ℤ) % 2 ^ 64).toNat = n := by omega
  rw [value_eq_of_find hfind]
  rcases hj with rfl | rfl | ⟨d, rfl, hd⟩
  · exact ⟨_, rfl, hwrap⟩
  · exact ⟨_, rfl, hwrap⟩
  · refine ⟨_, rfl, fun hn => ?_⟩
    have hholds : (0 : ℤ) ≤ n ∧ (n : ℤ) < 2 ^ 64 := by omega
    simp only [Json.castFloat, hd, Rat.num_natCast, Rat.den_natCast, Nat.cast_one, Int.tdiv_one,
      decide_eq_true hholds, if_true]
    exact hwrap hn

/-- The limit that reaches the store is the number asked for, unless the type does not hold that. -/
theorem limit_of_asks {S : Services σ} {args : Json} {parsed : HistorianQueryArgs}
    (h : parseHistorianArgs S args = some (.ok parsed)) {n : Nat} (hn : Asks args n) :
    parsed.range.limit ≤ kDefaultLimit ∧
      (n < 2 ^ 64 → parsed.range.limit = min n kDefaultLimit) := by
  obtain ⟨requested, hrequested, hlimit⟩ := limit_of_parse h
  obtain ⟨asked, hasked, hread⟩ := asUInt64_of_asks (S := S) hn
  obtain rfl := Option.some.inj (hrequested.symm.trans hasked)
  refine ⟨hlimit ▸ min_le_right requested kDefaultLimit, fun hsmall => ?_⟩
  rw [hlimit, hread hsmall]

/-! ## The bound -/

theorem length_rows (S : Services σ) (archive : σ → Database Double)
    (order : Sorting (newerFirst (ν := Double))) (tier : QueryRange → Tier) (w : σ) {args : Json}
    {parsed : HistorianQueryArgs} (h : parseHistorianArgs S args = some (.ok parsed)) :
    ∃ rows, (runHistorianQuery (withStore S archive order tier) parsed w).1 = .array rows ∧
      rows.length =
        if parsed.range.limit = 0 then
          (matching ((archive w).tables (tier parsed.range)) parsed.field parsed.entityId
            parsed.range).length
        else
          min parsed.range.limit
            (matching ((archive w).tables (tier parsed.range)) parsed.field parsed.entityId
              parsed.range).length := by
  obtain ⟨requested, -, hlimit⟩ := limit_of_parse h
  have hle : parsed.range.limit ≤ 10000 := hlimit ▸ min_le_right requested kDefaultLimit
  have hcast : (parsed.range.limit = 0 ∨ 2 ^ 63 ≤ parsed.range.limit) ↔ parsed.range.limit = 0 := by
    omega
  refine ⟨_, rfl, ?_⟩
  rw [List.length_map]
  exact (length_select _ (by omega)).trans (if_congr hcast rfl rfl)

/-- The answer to accepted arguments is bounded exactly when their limit is not read as zero, or
no more rows match than the default has. -/
theorem queryBounded_iff (S : Services σ) (archive : σ → Database Double)
    (order : Sorting (newerFirst (ν := Double))) (tier : QueryRange → Tier) (w : σ) {args : Json}
    {parsed : HistorianQueryArgs} (h : parseHistorianArgs S args = some (.ok parsed)) :
    (∃ rows, (runHistorianQuery (withStore S archive order tier) parsed w).1 = .array rows ∧
        Bounded args rows) ↔
      ¬ ZeroLimit S args ∨
        (matching ((archive w).tables (tier parsed.range)) parsed.field parsed.entityId
          parsed.range).length ≤ kDefaultLimit := by
  obtain ⟨rows, hrows, hlength⟩ := length_rows S archive order tier w h
  obtain ⟨requested, -, hlimit⟩ := limit_of_parse h
  have hle : parsed.range.limit ≤ kDefaultLimit := hlimit ▸ min_le_right requested kDefaultLimit
  generalize (matching ((archive w).tables (tier parsed.range)) parsed.field parsed.entityId
    parsed.range).length = count at hlength ⊢
  rw [← limit_eq_zero_iff h]
  constructor
  · rintro ⟨rows', hrows', hbounded⟩
    obtain rfl := Json.array.inj (hrows.symm.trans hrows')
    by_contra hneither
    obtain ⟨hzero, hcount⟩ := not_or.mp hneither
    rw [if_pos (not_not.mp hzero)] at hlength
    exact hcount (hlength ▸ hbounded.default)
  · intro hor
    have hdefault : rows.length ≤ kDefaultLimit := by
      rw [hlength]
      split
      next hzero => exact hor.resolve_left (not_not.mpr hzero)
      next => exact (min_le_left _ _).trans hle
    refine ⟨rows, hrows, hdefault, fun n hn => ?_⟩
    have hpos := hn.1
    obtain ⟨-, hasked⟩ := limit_of_asks h hn
    rw [kDefaultLimit] at hasked hdefault
    rcases Nat.lt_or_ge n (2 ^ 64) with hsmall | hlarge
    · have hlimit := hasked hsmall
      rw [hlength, if_neg (by omega)]
      omega
    · -- the default is below what the type does not hold
      omega

/-- The arguments of a request for the system state with a limit. -/
def stateArgs (limit : ℤ) : Json :=
  .object [(ascii "field", .string (ascii "state")), (ascii "limit", .integer limit)]

/-- The arguments of such a request with a limit of 1e20. -/
def hugeArgs : Json :=
  .object [(ascii "field", .string (ascii "state")),
    (ascii "limit", .float ⟨some 100000000000000000000, ascii "1e+20", by decide⟩)]

theorem parse_stateArgs_negative :
    parseHistorianArgs quiet (stateArgs (-1)) = some (.ok ⟨.SystemState, 0, ⟨0, 0, 10000⟩⟩) := rfl

theorem parse_stateArgs_zero :
    parseHistorianArgs quiet (stateArgs 0) = some (.ok ⟨.SystemState, 0, ⟨0, 0, 0⟩⟩) := rfl

/-- One more row of the system state than the default, all of one time. -/
def overfull : Database Double where
  tables _ := List.replicate 10001 ⟨0, "T", 0, zero⟩

theorem parse_hugeArgs :
    parseHistorianArgs quiet hugeArgs = some (.ok ⟨.SystemState, 0, ⟨0, 0, 0⟩⟩) := rfl

theorem queryBounded_iff_negative :
    ∃ rows, (runHistorianQuery (withStore quiet (fun _ => overfull) newestFirst tierForRange)
        ⟨.SystemState, 0, ⟨0, 0, 10000⟩⟩ ()).1 = .array rows ∧ Bounded (stateArgs (-1)) rows := by
  refine (queryBounded_iff quiet (fun _ => overfull) newestFirst tierForRange ()
    parse_stateArgs_negative).mpr (.inl ?_)
  rintro ⟨j, hfind, hj⟩
  obtain rfl : Json.integer (-1) = j := Option.some.inj hfind
  exact absurd hj (by decide)

/-- Without a limit all rows are answered. -/
theorem not_bounded_overfull {args : Json}
    (h : parseHistorianArgs quiet args = some (.ok ⟨.SystemState, 0, ⟨0, 0, 0⟩⟩)) :
    ¬ ∃ rows, (runHistorianQuery (withStore quiet (fun _ => overfull) newestFirst tierForRange)
      ⟨.SystemState, 0, ⟨0, 0, 0⟩⟩ ()).1 = .array rows ∧ Bounded args rows := by
  rintro ⟨rows, hrows, hbounded⟩
  obtain ⟨rows', hrows', hlength⟩ := length_rows quiet (fun _ => overfull) newestFirst
    tierForRange () h
  obtain rfl := Json.array.inj (hrows.symm.trans hrows')
  have hdefault := hbounded.default
  rw [hlength, if_pos rfl, matching, overfull, List.filter_replicate, if_pos (by decide),
    List.length_replicate, kDefaultLimit] at hdefault
  omega

/-- A limit of zero is none: more rows are answered than the default.  So is one of 1e20 where its
cast gives zero. -/
theorem zero_limit_unbounded :
    (parseHistorianArgs quiet (stateArgs 0) = some (.ok ⟨.SystemState, 0, ⟨0, 0, 0⟩⟩) ∧
      ¬ ∃ rows, (runHistorianQuery (withStore quiet (fun _ => overfull) newestFirst tierForRange)
          ⟨.SystemState, 0, ⟨0, 0, 0⟩⟩ ()).1 = .array rows ∧ Bounded (stateArgs 0) rows) ∧
    (parseHistorianArgs quiet hugeArgs = some (.ok ⟨.SystemState, 0, ⟨0, 0, 0⟩⟩) ∧
      ¬ ∃ rows, (runHistorianQuery (withStore quiet (fun _ => overfull) newestFirst tierForRange)
          ⟨.SystemState, 0, ⟨0, 0, 0⟩⟩ ()).1 = .array rows ∧ Bounded hugeArgs rows) :=
  ⟨⟨parse_stateArgs_zero, not_bounded_overfull parse_stateArgs_zero⟩,
    parse_hugeArgs, not_bounded_overfull parse_hugeArgs⟩

end Mcp
