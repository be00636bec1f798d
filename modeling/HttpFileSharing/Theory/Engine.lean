import HttpFileSharing.Core.Engine
import Mathlib.Data.List.Perm.Basic

/-!
# Working with a Handle

What follows from `Sqlite.Works` for a handle on a file, call by call. The server opens
a database, makes a few calls and closes it, and what it has done in between is told
by what is in the file then. So all that is to be known of a handle is which file it
is on, what it sees there, and that the other files are as they were when it was
opened. Every call leaves it so, with the same contents or with new ones.

## Main definitions

* `Sqlite.View.OnFile`: A handle on a file.

## Theorems

* `Sqlite.Works.onFile`: Opening a file.
* `Sqlite.View.OnFile.unchanged`, `Sqlite.View.OnFile.written`: A call.
* `Sqlite.View.OnFile.closed`: Closing it.
* `Sqlite.Works.unprepared`: A table that is not there.
* `exists_map_of_perm`: Rows in another order.
-/

namespace HttpFileSharing

/-- What is an image of a list but for the order is one of the list in another order. -/
theorem exists_map_of_perm {α β : Type*} (f : α → β) (ys : List β) (xs : List α)
    (h : ys.Perm (xs.map f)) : ∃ zs : List α, zs.Perm xs ∧ ys = zs.map f := by
  have himage : List.Forall₂ (fun y x => y = f x) (xs.map f) xs :=
    List.forall₂_map_left_iff.mpr (List.forall₂_same.mpr (fun _ _ => rfl))
  rcases List.perm_comp_forall₂ h himage with ⟨zs, hzs, hperm⟩
  refine ⟨zs, hperm, ?_⟩
  rw [← List.forall₂_eq_eq_eq, List.forall₂_map_right_iff]
  exact hzs

namespace Sqlite

variable {sq : Sqlite} {v : sq.View}

namespace View

/-- What is not written is seen as before. -/
theorem Unchanged.store_eq {o o' : sq.Opened} (h : v.Unchanged o o') : v.store o' = v.store o := by
  rw [View.store, View.store, h.target]
  cases v.target o with
  | file loc => exact h.contents loc
  | memory => exact h.memory

theorem Unchanged.trans {o o' o'' : sq.Opened} (h : v.Unchanged o o') (h' : v.Unchanged o' o'') :
    v.Unchanged o o'' where
  target := h'.target.trans h.target
  contents loc := (h'.contents loc).trans (h.contents loc)
  memory := h'.memory.trans h.memory

/-- A handle on a file that was opened in world `w`. It sees `store` there, and the
    other files are as they were. -/
structure OnFile (v : sq.View) (w : sq.World) (loc : v.File) (o : sq.Opened) (store : Store) :
    Prop where
  target : v.target o = .file loc
  store : v.store o = some store
  others : ∀ other, other ≠ loc → v.contents (sq.close o) other = v.contents w other

section OnFile

variable {w : sq.World} {loc : v.File} {o o' : sq.Opened} {store store' : Store}

/-- A call that writes nothing. -/
theorem OnFile.unchanged (h : v.OnFile w loc o store) (hsame : v.Unchanged o o') :
    v.OnFile w loc o' store where
  target := hsame.target.trans h.target
  store := hsame.store_eq.trans h.store
  others other hne := (hsame.contents other).trans (h.others other hne)

/-- A call that writes. -/
theorem OnFile.written (h : v.OnFile w loc o store) (hnew : v.Written o o' store') :
    v.OnFile w loc o' store' where
  target := hnew.target.trans h.target
  store := hnew.store
  others other hne := by
    have hother : v.target o ≠ .file other := by
      rw [h.target]
      exact fun heq => hne (DbPlace.file.inj heq).symm
    exact (hnew.others other hother).trans (h.others other hne)

/-- What is in the file when it is closed. -/
theorem OnFile.closed (h : v.OnFile w loc o store) :
    v.contents (sq.close o) loc = some store := by
  have hstore := h.store
  rw [View.store, h.target] at hstore
  exact hstore

end OnFile

end View

namespace Works

/-- Opening a file. -/
theorem onFile (hworks : sq.Works v) (w : sq.World) (cwd : Location) (name : Bytes)
    (loc : v.File) (store : Store) (hplace : v.place cwd name = some (.file loc))
    (hstore : v.contents w loc = some store) :
    ∃ o, sq.openDb w cwd name = some o ∧ v.OnFile w loc o store := by
  rcases hworks.opens w cwd name _ hplace with ⟨o, hopen, htarget, hcontents, hfound⟩
  exact ⟨o, hopen, htarget, hfound.trans hstore, fun other _ => hcontents other⟩

/-- Where the table is not there, the database is opened and the statement is not
    prepared. -/
theorem unprepared (hworks : sq.Works v) (w : sq.World) (cwd : Location) (name : Bytes)
    (place : DbPlace v.File) (store : Store) (hplace : v.place cwd name = some place)
    (hfound : v.found w place = some store)
    (hmissing : store.db.tables.lookup "stats".toList = none) (query : Bytes)
    (statement : RowStatement) (hread : readRowStatement query = some statement)
    (htable : statement.table = "stats".toList) :
    ∃ o, sq.openDb w cwd name = some o ∧ (sq.prepare o query).1 = false := by
  rcases hworks.opens w cwd name place hplace with ⟨o, hopen, _, _, hstore⟩
  exact ⟨o, hopen, hworks.missing o store query statement (hstore.trans hfound) hread htable
    (htable ▸ hmissing)⟩

end Works

end Sqlite

end HttpFileSharing
