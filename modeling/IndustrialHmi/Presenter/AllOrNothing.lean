import IndustrialHmi.Presenter.UsersPresenter

/-!
# All or nothing, and one audit row

A call that is refused leaves the table and the session as they were.  One that is carried out
edits the row of one id, and there only the columns it is about: a text that is written back
with them reads as before.  Either way the audit trail gets one row.
-/

open Auth

namespace UsersPresenter

open UserRow (Column)

/-- What an operation of somebody may do to the row of an id. -/
inductive Operation.Edits (me : User) : Operation → ℤ → Option UserRow → Option UserRow → Prop where
  | create {username password displayName : Text} {role : Role} (row : UserRow) :
      Edits me (.create username password role displayName) row.id none (some row)
  | update {id : ℤ} {role : Role} {displayName : Text} {enabled : Bool} {row row' : UserRow}
      (h : row.SameBut [.role, .enabled, .displayName, .updatedAt] row') :
      Edits me (.update id role displayName enabled) id (some row) (some row')
  | remove {id : ℤ} {row : UserRow} : Edits me (.remove id) id (some row) none
  | resetPassword {id : ℤ} {newPassword : Text} {row row' : UserRow}
      (h : row.SameBut [.passwordHash, .updatedAt] row') :
      Edits me (.resetPassword id newPassword) id (some row) (some row')
  | changeOwnPassword {oldPassword newPassword : Text} {row row' : UserRow}
      (h : row.SameBut [.passwordHash, .updatedAt] row') :
      Edits me (.changeOwnPassword oldPassword newPassword) me.id (some row) (some row')
  | setOwnAvatar {bytes mime : Text} {row row' : UserRow}
      (h : row.SameBut [.avatarMime, .avatarBlob, .updatedAt] row') :
      Edits me (.setOwnAvatar bytes mime) me.id (some row) (some row')
  | clearOwnAvatar {row row' : UserRow}
      (h : row.SameBut [.avatarMime, .avatarBlob, .updatedAt] row') :
      Edits me .clearOwnAvatar me.id (some row) (some row')

/-- What a call of somebody leaves of the world, with the status it returns. -/
structure AllOrNothing (me : User) (op : Operation) (w : World) (r : Result) : Prop where
  audited : ∃ event, r.2.audits = w.audits ++ [event] ∧
    (event.result = Outcome.kSuccess ↔ r.1 = .Ok)
  unchanged (h : r.1 ≠ .Ok) : r.2.users = w.users ∧ r.2.session = w.session
  edited (h : r.1 = .Ok) : ∃ id before after, w.users.Alters r.2.users id before after ∧
    op.Edits me id before after

/-! ## The columns that are written -/

theorem sameBut_update (row : UserRow) (role : Role) (displayName now : Text) (enabled : Bool) :
    row.SameBut [.role, .enabled, .displayName, .updatedAt] (row.withUser
      { row.extractUser with role := role, displayName := displayName, enabled := enabled }
      now) := by
  intro column hcolumn
  cases column with
  | passwordHash => exact congrArg UserRow.Cell.text (columnTextOrEmpty_idem _)
  | role | enabled | displayName | updatedAt => exact absurd (by decide) hcolumn
  | _ => rfl

theorem sameBut_password (row : UserRow) (hash now : Text) :
    row.SameBut [.passwordHash, .updatedAt]
      (row.withUser { row.extractUser with passwordHash := hash } now) := by
  intro column hcolumn
  cases column with
  | displayName =>
      exact congrArg UserRow.Cell.text
        ((columnTextOrEmpty_bind _).trans (columnTextOrEmpty_idem _))
  | passwordHash | updatedAt => exact absurd (by decide) hcolumn
  | _ => rfl

theorem sameBut_avatar (row : UserRow) (blob mime : Option Text) (now : Text) :
    row.SameBut [.avatarMime, .avatarBlob, .updatedAt] (row.withAvatar blob mime now) := by
  intro column hcolumn
  cases column with
  | avatarMime | avatarBlob | updatedAt => exact absurd (by decide) hcolumn
  | _ => rfl

/-- An operation that is carried out edits one row. -/
theorem Effect.edits {answers : Answers} {op : Operation} {w : World} {me : User}
    {users : UserTable} {session : Session} (hsession : w.session.current = some me)
    (h : Effect answers w op users session) :
    ∃ id before after, w.users.Alters users id before after ∧ op.Edits me id before after := by
  cases h with
  | create hme hcreated =>
      have halters := UserTable.alters_create hcreated
      exact ⟨_, _, _, halters, .create (UserTable.newRow _)⟩
  | update found hme hname hfound hself husers =>
      obtain ⟨-, row, rfl, halters⟩ := UserTable.alters_update hfound husers rfl
      exact ⟨_, _, _, halters, .update (sameBut_update row _ _ _ _)⟩
  | remove hme hother husers =>
      obtain ⟨row, halters⟩ := UserTable.alters_remove husers
      exact ⟨_, _, _, halters, .remove⟩
  | resetPassword hme hfound husers =>
      obtain ⟨-, row, rfl, halters⟩ := UserTable.alters_update hfound husers rfl
      exact ⟨_, _, _, halters, .resetPassword (sameBut_password row _ _)⟩
  | changeOwnPassword hme hfound husers =>
      obtain rfl := Option.some.inj (hme.symm.trans hsession)
      obtain ⟨-, row, rfl, halters⟩ := UserTable.alters_update hfound husers rfl
      exact ⟨_, _, _, halters, .changeOwnPassword (sameBut_password row _ _)⟩
  | setOwnAvatar hme husers =>
      obtain rfl := Option.some.inj (hme.symm.trans hsession)
      obtain ⟨row, halters⟩ := UserTable.alters_setAvatar husers
      exact ⟨_, _, _, halters, .setOwnAvatar (sameBut_avatar row _ _ _)⟩
  | clearOwnAvatar hme husers =>
      obtain rfl := Option.some.inj (hme.symm.trans hsession)
      obtain ⟨row, halters⟩ := UserTable.alters_clearAvatar husers
      exact ⟨_, _, _, halters, .clearOwnAvatar (sameBut_avatar row _ _ _)⟩

/-! ## Every call -/

theorem result_makeEvent (session : Session) (action details : Text) (success : Bool) :
    (makeEvent session action details success).result = Outcome.kSuccess ↔ success = true := by
  cases success with
  | true => exact iff_of_true rfl rfl
  | false => exact iff_of_false (by decide : Outcome.kFailure ≠ Outcome.kSuccess) Bool.false_ne_true

/-- Whoever is signed in and whatever fails, a call does all of its operation or nothing of it,
and leaves one row in the audit trail. -/
theorem perform_allOrNothing (answers : Answers) (op : Operation) {w : World} {me : User}
    (hsession : w.session.current = some me) :
    AllOrNothing me op w (perform answers op w) := by
  have hends := perform_ends answers op hsession
  generalize perform answers op w = r at hends
  cases hends with
  | refused action details hstatus =>
      refine ⟨⟨_, rfl, ?_⟩, fun _ => ⟨rfl, rfl⟩, fun h => absurd h hstatus⟩
      exact (result_makeEvent _ _ _ _).trans (iff_of_false Bool.false_ne_true hstatus)
  | accepted action details heffect =>
      refine ⟨⟨_, rfl, ?_⟩, fun h => absurd rfl h, fun _ => heffect.edits hsession⟩
      exact (result_makeEvent _ _ _ _).trans (iff_of_true rfl rfl)

theorem perform_allOrNothing_reset :
    AllOrNothing adminRow.extractUser (.resetPassword 1 (ascii "longenough")) oneAdmin
      (perform calm (.resetPassword 1 (ascii "longenough")) oneAdmin) :=
  perform_allOrNothing calm (.resetPassword 1 (ascii "longenough")) rfl

end UsersPresenter
