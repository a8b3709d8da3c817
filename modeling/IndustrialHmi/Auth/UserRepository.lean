import IndustrialHmi.Auth.User
import IndustrialHmi.Theory.FirstMatch
import Mathlib.Data.List.TakeWhile

/-!
# The table of users

A table keeps its rows in the order of their ids, which it hands out and never gives again.
Two usernames that differ only in case are one.  Every operation is a single statement: it is
carried out, or it fails and there is no new table.
-/

namespace Auth

def toLower (b : UInt8) : UInt8 := if 0x41 ≤ b ∧ b ≤ 0x5A then b + 0x20 else b

/-- What a column of type `COLLATE NOCASE` is compared by. -/
def nocase (t : Text) : Text := t.map toLower

/-- A row of `users`, with `none` for the null of a column that may be null. -/
structure UserRow where
  id : ℤ
  username : Text
  passwordHash : Text
  role : Role
  enabled : Bool
  createdAt : Text
  displayName : Option Text
  avatarMime : Option Text
  avatarBlob : Option Text
  updatedAt : Option Text
  deriving DecidableEq

/-- A column is read as a C string. -/
def columnTextOrEmpty (column : Option Text) : Text := (column.getD []).takeWhile (· ≠ 0)

/-- What is bound for a text that is kept as null when it is empty. -/
def bindTextOrNull (t : Text) : Option Text := if t = [] then none else some t

namespace UserRow

def extractUser (r : UserRow) : User where
  id := r.id
  username := columnTextOrEmpty r.username
  passwordHash := columnTextOrEmpty r.passwordHash
  role := r.role
  enabled := r.enabled
  displayName := columnTextOrEmpty r.displayName
  avatarMime := columnTextOrEmpty r.avatarMime
  createdAt := columnTextOrEmpty r.createdAt
  updatedAt := columnTextOrEmpty r.updatedAt

/-- The row with what an update of its user writes. -/
def withUser (user : User) (now : Text) (r : UserRow) : UserRow :=
  { r with
    passwordHash := user.passwordHash
    role := user.role
    enabled := user.enabled
    displayName := bindTextOrNull user.displayName
    updatedAt := some now }

def withAvatar (blob mime : Option Text) (now : Text) (r : UserRow) : UserRow :=
  { r with avatarBlob := blob, avatarMime := mime, updatedAt := some now }

/-- What an `UPDATE` does to a row: none of them sets the id or the username. -/
structure Edit where
  apply : UserRow → UserRow
  id_apply (r : UserRow) : (apply r).id = r.id
  username_apply (r : UserRow) : (apply r).username = r.username

/-! ## Columns as they are read -/

inductive Column where
  | id
  | username
  | passwordHash
  | role
  | enabled
  | createdAt
  | displayName
  | avatarMime
  | avatarBlob
  | updatedAt
  deriving DecidableEq

inductive Cell where
  | integer (i : ℤ)
  | text (t : Text)
  | blob (b : Option Text)
  deriving DecidableEq

def cell (r : UserRow) : Column → Cell
  | .id => .integer r.id
  | .username => .text (columnTextOrEmpty r.username)
  | .passwordHash => .text (columnTextOrEmpty r.passwordHash)
  | .role => .integer r.role.level
  | .enabled => .integer r.enabled.toNat
  | .createdAt => .text (columnTextOrEmpty r.createdAt)
  | .displayName => .text (columnTextOrEmpty r.displayName)
  | .avatarMime => .text (columnTextOrEmpty r.avatarMime)
  | .avatarBlob => .blob r.avatarBlob
  | .updatedAt => .text (columnTextOrEmpty r.updatedAt)

/-- Two rows read the same but for some of their columns. -/
def SameBut (columns : List Column) (r r' : UserRow) : Prop :=
  ∀ column ∉ columns, r'.cell column = r.cell column

end UserRow

theorem columnTextOrEmpty_bind (t : Text) :
    columnTextOrEmpty (bindTextOrNull t) = columnTextOrEmpty (some t) := by
  unfold bindTextOrNull
  split
  next hempty => rw [hempty]; rfl
  next => rfl

/-- Writing back what was read changes nothing that can be read. -/
theorem columnTextOrEmpty_idem (column : Option Text) :
    columnTextOrEmpty (some (columnTextOrEmpty column)) = columnTextOrEmpty column :=
  List.takeWhile_idem

/-! ## The table -/

structure UserTable where
  rows : List UserRow
  /-- The largest id that was ever handed out. -/
  sequence : ℤ
  ids_nodup : (rows.map UserRow.id).Nodup
  id_le_sequence : ∀ r ∈ rows, r.id ≤ sequence
  names_nodup : (rows.map fun r => nocase r.username).Nodup

def kMaxRowId : ℤ := 2 ^ 63 - 1
def kMaxAvatarBytes : Nat := 256 * 1024
def kMimePng : Text := ascii "image/png"
def kMimeJpeg : Text := ascii "image/jpeg"

def isAllowedAvatarMime (mime : Text) : Bool := mime = kMimePng ∨ mime = kMimeJpeg

namespace UserTable

/-- The row with an id. -/
def row? (t : UserTable) (id : ℤ) : Option UserRow := FirstMatch.find UserRow.id t.rows id

/-- A table of one row. -/
def single (r : UserRow) : UserTable where
  rows := [r]
  sequence := r.id
  ids_nodup := List.nodup_singleton _
  id_le_sequence _ h := List.mem_singleton.mp h ▸ Int.le_refl r.id
  names_nodup := List.nodup_singleton _

def findById (t : UserTable) (id : ℤ) (fails : Bool) : Option User :=
  if fails then none else (t.row? id).map UserRow.extractUser

/-- A user as the table stores him: with the next id, and with the times he came without. -/
def stamp (t : UserTable) (user : User) (now : Text) : User :=
  let createdAt := if user.createdAt = [] then now else user.createdAt
  { user with
    id := t.sequence + 1
    createdAt := createdAt
    updatedAt := if user.updatedAt = [] then createdAt else user.updatedAt }

def newRow (user : User) : UserRow where
  id := user.id
  username := user.username
  passwordHash := user.passwordHash
  role := user.role
  enabled := user.enabled
  createdAt := user.createdAt
  displayName := bindTextOrNull user.displayName
  avatarMime := none
  avatarBlob := none
  updatedAt := some user.updatedAt

theorem stamp_id_not_mem (t : UserTable) (user : User) (now : Text) :
    (t.stamp user now).id ∉ t.rows.map UserRow.id := by
  intro h
  obtain ⟨r, hr, hid⟩ := List.mem_map.mp h
  have hle : r.id ≤ t.sequence := t.id_le_sequence r hr
  rw [hid] at hle
  exact Int.lt_irrefl _ (Int.lt_of_lt_of_le (Int.lt_succ t.sequence) hle)

/-- The table with one more row. -/
def insert (t : UserTable) (user : User) (now : Text)
    (hname : nocase user.username ∉ t.rows.map fun r => nocase r.username) : UserTable where
  rows := t.rows ++ [newRow (t.stamp user now)]
  sequence := t.sequence + 1
  ids_nodup := by
    rw [List.map_append, List.map_singleton, ← List.concat_eq_append]
    exact t.ids_nodup.concat (t.stamp_id_not_mem user now)
  id_le_sequence r hr := by
    rcases List.mem_append.mp hr with h | h
    · exact Int.le_trans (t.id_le_sequence r h) (Int.le_of_lt (Int.lt_succ _))
    · rw [List.mem_singleton.mp h]
      exact Int.le_refl _
  names_nodup := by
    rw [List.map_append, List.map_singleton, ← List.concat_eq_append]
    exact t.names_nodup.concat hname

def create (t : UserTable) (user : User) (now : Text) (fails : Bool) :
    Option (User × UserTable) :=
  if h : nocase user.username ∈ t.rows.map fun r => nocase r.username then none
  else if fails ∨ kMaxRowId ≤ t.sequence then none
  else some (t.stamp user now, t.insert user now h)

/-- The table with the row of an id edited. -/
def edit (t : UserTable) (id : ℤ) (e : UserRow.Edit) : UserTable where
  rows := FirstMatch.assign UserRow.id t.rows id e.apply
  sequence := t.sequence
  ids_nodup := by
    rw [FirstMatch.map_key_assign fun r hr => (e.id_apply r).trans hr]
    exact t.ids_nodup
  id_le_sequence r hr := by
    have hids : r.id ∈ t.rows.map UserRow.id := by
      rw [← FirstMatch.map_key_assign fun r hr => (e.id_apply r).trans hr]
      exact List.mem_map_of_mem hr
    obtain ⟨r', hr', hid⟩ := List.mem_map.mp hids
    exact hid ▸ t.id_le_sequence r' hr'
  names_nodup := by
    have hnames : (FirstMatch.assign UserRow.id t.rows id e.apply).map
        (fun r => nocase r.username) = t.rows.map fun r => nocase r.username := by
      refine List.lookmap_map_eq _ _ (fun r r' hr' => ?_) _
      split at hr'
      · rw [← Option.some.inj hr', e.username_apply]
      · cases hr'
    rw [hnames]
    exact t.names_nodup

/-- A statement `UPDATE … WHERE id = ?`, which fails if no row has the id. -/
def updateRow (t : UserTable) (id : ℤ) (e : UserRow.Edit) (fails : Bool) : Option UserTable :=
  if fails ∨ t.row? id = none then none else some (t.edit id e)

def update (t : UserTable) (user : User) (now : Text) (fails : Bool) : Option UserTable :=
  t.updateRow user.id ⟨UserRow.withUser user now, fun _ => rfl, fun _ => rfl⟩ fails

/-- The table without the row of an id. -/
def delete (t : UserTable) (id : ℤ) : UserTable where
  rows := FirstMatch.erase UserRow.id t.rows id
  sequence := t.sequence
  ids_nodup := t.ids_nodup.sublist ((FirstMatch.erase_sublist t.rows id).map _)
  id_le_sequence r hr := t.id_le_sequence r ((FirstMatch.erase_sublist t.rows id).subset hr)
  names_nodup := t.names_nodup.sublist ((FirstMatch.erase_sublist t.rows id).map _)

def remove (t : UserTable) (id : ℤ) (fails : Bool) : Option UserTable :=
  if fails ∨ t.row? id = none then none else some (t.delete id)

def setAvatar (t : UserTable) (id : ℤ) (bytes mime now : Text) (fails : Bool) :
    Option UserTable :=
  if bytes = [] ∨ kMaxAvatarBytes < bytes.length then none
  else if !isAllowedAvatarMime mime then none
  else
    t.updateRow id
      ⟨UserRow.withAvatar (some bytes) (some mime) now, fun _ => rfl, fun _ => rfl⟩ fails

def clearAvatar (t : UserTable) (id : ℤ) (now : Text) (fails : Bool) : Option UserTable :=
  t.updateRow id ⟨UserRow.withAvatar none none now, fun _ => rfl, fun _ => rfl⟩ fails

/-! ## What an operation does to the row of each id -/

/-- One table is the other but for what it holds under one id. -/
structure Alters (t t' : UserTable) (id : ℤ) (before after : Option UserRow) : Prop where
  before : t.row? id = before
  after : t'.row? id = after
  elsewhere (other : ℤ) (h : other ≠ id) : t'.row? other = t.row? other

theorem findById_eq_some {t : UserTable} {id : ℤ} {fails : Bool} {user : User}
    (h : t.findById id fails = some user) :
    fails = false ∧ ∃ r, t.row? id = some r ∧ r.extractUser = user := by
  unfold findById at h
  split at h
  · cases h
  next hfails => exact ⟨Bool.eq_false_iff.mpr hfails, Option.map_eq_some_iff.mp h⟩

theorem id_of_row? {t : UserTable} {id : ℤ} {r : UserRow} (h : t.row? id = some r) : r.id = id :=
  FirstMatch.key_of_find h

theorem alters_updateRow {t t' : UserTable} {id : ℤ} {e : UserRow.Edit} {fails : Bool}
    (h : t.updateRow id e fails = some t') :
    fails = false ∧ ∃ r, t.Alters t' id (some r) (some (e.apply r)) := by
  unfold updateRow at h
  split at h
  · cases h
  next hrow =>
    obtain ⟨hfails, hnone⟩ := not_or.mp hrow
    obtain ⟨r, hr⟩ := Option.ne_none_iff_exists'.mp hnone
    have hrows (other : ℤ) : t'.row? other =
        if id = other then (t.row? other).map e.apply else t.row? other := by
      rw [← Option.some.inj h]
      exact FirstMatch.find_assign (fun r hr => (e.id_apply r).trans hr) t.rows other
    refine ⟨Bool.eq_false_iff.mpr hfails, r, hr, ?_, fun other hother => ?_⟩
    · rw [hrows, if_pos rfl, hr, Option.map_some]
    · rw [hrows, if_neg (Ne.symm hother)]

/-- A user that was read is written back to the row he was read from. -/
theorem alters_update {t t' : UserTable} {id : ℤ} {found user : User} {now : Text}
    {rfails wfails : Bool} (hfound : t.findById id rfails = some found)
    (h : t.update user now wfails = some t') (hid : user.id = found.id) :
    (rfails = false ∧ wfails = false) ∧ ∃ r, found = r.extractUser ∧
      t.Alters t' id (some r) (some (r.withUser user now)) := by
  obtain ⟨hread, r, hr, rfl⟩ := findById_eq_some hfound
  obtain ⟨hwrite, r', halters⟩ := alters_updateRow h
  rw [hid, show r.extractUser.id = id from id_of_row? hr] at halters
  obtain rfl : r = r' := Option.some.inj (hr.symm.trans halters.before)
  exact ⟨⟨hread, hwrite⟩, r, rfl, halters⟩

theorem alters_setAvatar {t t' : UserTable} {id : ℤ} {bytes mime now : Text} {fails : Bool}
    (h : t.setAvatar id bytes mime now fails = some t') :
    ∃ r, t.Alters t' id (some r) (some (r.withAvatar (some bytes) (some mime) now)) := by
  unfold setAvatar at h
  split at h
  · cases h
  next =>
    split at h
    · cases h
    next => exact (alters_updateRow h).2

theorem alters_clearAvatar {t t' : UserTable} {id : ℤ} {now : Text} {fails : Bool}
    (h : t.clearAvatar id now fails = some t') :
    ∃ r, t.Alters t' id (some r) (some (r.withAvatar none none now)) :=
  (alters_updateRow h).2

theorem alters_remove {t t' : UserTable} {id : ℤ} {fails : Bool}
    (h : t.remove id fails = some t') : ∃ r, t.Alters t' id (some r) none := by
  unfold remove at h
  split at h
  · cases h
  next hrow =>
    obtain ⟨r, hr⟩ := Option.ne_none_iff_exists'.mp (not_or.mp hrow).2
    rw [← Option.some.inj h]
    exact ⟨r, hr, FirstMatch.find_erase_self t.ids_nodup id,
      fun other hother => FirstMatch.find_erase_of_ne (Ne.symm hother)⟩

theorem alters_create {t t' : UserTable} {user created : User} {now : Text} {fails : Bool}
    (h : t.create user now fails = some (created, t')) :
    t.Alters t' created.id none (some (newRow created)) := by
  unfold create at h
  split at h
  · cases h
  next hname =>
    split at h
    · cases h
    next =>
      obtain ⟨rfl, rfl⟩ := Prod.mk.inj (Option.some.inj h)
      have hfresh : t.row? (t.stamp user now).id = none :=
        FirstMatch.find_eq_none.mpr (t.stamp_id_not_mem user now)
      have hrows (other : ℤ) : (t.insert user now hname).row? other =
          (t.row? other).or (if (t.stamp user now).id = other then
            some (newRow (t.stamp user now)) else none) := by
        rw [row?, insert, FirstMatch.find_append, FirstMatch.find_singleton]
        rfl
      refine ⟨hfresh, ?_, fun other hother => ?_⟩
      · rw [hrows, hfresh, if_pos rfl, Option.none_or]
      · rw [hrows, if_neg (Ne.symm hother), Option.or_none]

end UserTable

end Auth
