import Mathlib.Logic.Function.Basic
import Realwork.Receive.Definitions

/-!
# Receive — the database connection

`DBConnection.cxx` over the table `REALWORK`.  The statements do what their text says; each call
takes the next outcome of `World.outcomes`, and where that is an exception the call has no
effect, except that a lost session takes the open transaction with it.

* `ends_call`: what a call on the database does.
-/

namespace Realwork.Receive

open Realwork.Lib

/-! ### The statements -/

/-- `WHERE CSTNO = :cstno AND WORKFLAG = 0`. -/
def Row.LiveOf (cstNo : Str) (row : Row) : Prop :=
  row.cstNo = cstNo ∧ row.workflag = 0

instance (cstNo : Str) : DecidablePred (Row.LiveOf cstNo) := fun row =>
  inferInstanceAs (Decidable (row.cstNo = cstNo ∧ row.workflag = 0))

/-- `TRIM`. -/
def trim (s : Str) : Str :=
  ((s.dropWhile (· = 0x20)).reverse.dropWhile (· = 0x20)).reverse

/-- The record the select reads of a row. -/
def Row.record (row : Row) : RealworkRecord :=
  { row.toRealworkRecord with
    neType := trim row.neType
    serialno := trim row.serialno
    mms := trim row.mms
    rnc := trim row.rnc
    bts := trim row.bts
    regionCode := trim row.regionCode }

@[simp] theorem Row.record_cstNo (row : Row) : row.record.cstNo = row.cstNo := rfl

@[simp] theorem Row.record_cstChildNo (row : Row) : row.record.cstChildNo = row.cstChildNo := rfl

/-- The row the insert makes of a record. -/
def RealworkRecord.row (env : Env) (record : RealworkRecord) : Row :=
  { record with
    sDatePre := env.toDate record.sDatePre
    eDatePre := env.toDate record.eDatePre
    sDate := env.toDate record.sDate
    eDate := env.toDate record.eDate
    workflag := 0 }

/-- The columns the update sets in a row; it leaves `CSTNO`, `CSTCHILDNO` and `WORKFLAG`. -/
def Row.update (env : Env) (newrecord : RealworkRecord) (row : Row) : Row :=
  { newrecord.row env with
    cstNo := row.cstNo, cstChildNo := row.cstChildNo, workflag := row.workflag }

/-- Both numbers are there; a NULL is equal to nothing. -/
def RealworkRecord.Numbered (record : RealworkRecord) : Prop :=
  record.cstNo ≠ [] ∧ record.cstChildNo ≠ []

instance : DecidablePred RealworkRecord.Numbered := fun _ => inferInstanceAs (Decidable (_ ∧ _))

/-- `WHERE CSTNO = :cstno AND WORKFLAG = 0 AND CSTCHILDNO = :cstchildno`. -/
def Row.At (record : RealworkRecord) (row : Row) : Prop :=
  row.LiveOf record.cstNo ∧ row.cstChildNo = record.cstChildNo ∧ row.Numbered

instance (record : RealworkRecord) : DecidablePred (Row.At record) := fun _ =>
  inferInstanceAs (Decidable (_ ∧ _))

namespace Table

/-- The rows of the select of `SelectRealwork`. -/
def select (env : Env) (cstNo : Str) (table : Table) : List RealworkRecord :=
  if 0x27 ∈ cstNo then env.injected cstNo table
  else (table.filter (Row.LiveOf cstNo)).map Row.record

def insert (env : Env) (record : RealworkRecord) (table : Table) : Table :=
  table ++ [record.row env]

def update (env : Env) (record newrecord : RealworkRecord) (table : Table) : Table :=
  table.map fun row => if row.At record then row.update env newrecord else row

def delete (record : RealworkRecord) (table : Table) : Table :=
  table.filter fun row => ¬ row.At record

end Table

/-! ### The calls -/

/-- The outcome of a call on the database. -/
def call : Proc Unit := do
  match (← get).outcomes with
  | [] => pure ()
  | .ok :: outcomes => modify fun w => { w with outcomes }
  | .error true :: outcomes => do
      modify fun w => { w with outcomes }
      throw .otl
  | .error false :: outcomes => do
      -- a lost session takes the open transaction with it
      modify fun w => { w with outcomes, working := w.committed }
      throw .dbConnect

/-- `Open`: every exception of `rlogon` is a `DBConnectException`. -/
def openConnection : Proc Unit := do
  match (← get).outcomes with
  | [] => pure ()
  | .ok :: outcomes => modify fun w => { w with outcomes }
  | .error _ :: outcomes => do
      modify fun w => { w with outcomes }
      throw .dbConnect

/-- `Rollback`.  It swallows its own exception: a rollback that raises has lost the session, and
the transaction with it. -/
def rollback : Proc Unit :=
  modify fun w => { w with working := w.committed }

def commit : Proc Unit := do
  call
  modify fun w => { w with committed := w.working, commits := w.commits + 1 }

/-- `GetSectorNo`. -/
def getSectorNo (env : Env) (serial mms rnc bts : Str) : Proc Sector := do
  call
  return env.getSectorno serial mms rnc bts

/-- `SelectRealwork`, with `m_dbMap` as its map: the execution of the select, and the fetch of
one row after the other. -/
def selectRealwork (env : Env) (cstNo : Str) : Proc Unit := do
  modify fun w => { w with dbMap := ∅ }
  call
  (Table.select env cstNo (← get).working).forM fun record => do
    call
    modify fun w => { w with dbMap := w.dbMap.insert record.cstChildNo record }

def insertRealwork (env : Env) (record : RealworkRecord) : Proc Unit := do
  call
  modify fun w => { w with working := Table.insert env record w.working }

def updateRealwork (env : Env) (record newrecord : RealworkRecord) : Proc Unit := do
  call
  modify fun w => { w with working := Table.update env record newrecord w.working }

def deleteRealwork (record : RealworkRecord) : Proc Unit := do
  call
  modify fun w => { w with working := Table.delete record w.working }

/-! ### What they do -/

/-- `w'` is `w` after a call that is done. -/
def World.Called (w w' : World) : Prop :=
  ∃ rest, rest <:+ w.outcomes ∧ w' = { w with outcomes := rest }

/-- `w'` is `w` after a call that raises `e`. -/
def World.Failed (w : World) (e : Raised) (w' : World) : Prop :=
  ∃ rest, (e = .otl ∧ w.outcomes = .error true :: rest ∧ w' = { w with outcomes := rest }) ∨
    (e = .dbConnect ∧ w.outcomes = .error false :: rest ∧
      w' = { w with outcomes := rest, working := w.committed })

/-- No call on the database raises. -/
def World.Sound (w : World) : Prop := ∀ o ∈ w.outcomes, o = .ok

theorem World.Sound.suffix {w w' : World} (h : w.Sound) (hs : w'.outcomes <:+ w.outcomes) :
    w'.Sound := fun o ho => h o (hs.subset ho)

theorem World.not_sound {w : World} {alive : Bool} {rest : List Outcome}
    (h : w.outcomes = .error alive :: rest) : ¬ w.Sound := fun hs => by
  cases hs (.error alive) (by simp [h])

/-- **A call on the database** is done or raises, and nothing else happens. -/
theorem ends_call (w : World) : Ends call w (fun _ => w.Called) w.Failed := by
  refine ends_bind.mpr (ends_get.mpr ?_)
  rcases ho : w.outcomes with _ | ⟨(_ | (_ | _)), rest⟩
  · exact ends_pure.mpr ⟨[], by simp, by rw [← ho]⟩
  · exact ends_modify.mpr ⟨rest, by simp [ho], rfl⟩
  · exact ends_bind.mpr (ends_modify.mpr (ends_throw.mpr ⟨rest, .inr ⟨rfl, ho, rfl⟩⟩))
  · exact ends_bind.mpr (ends_modify.mpr (ends_throw.mpr ⟨rest, .inl ⟨rfl, ho, rfl⟩⟩))

/-- A statement: its call, and its effect when the call is done. -/
theorem ends_call_modify (w : World) (f : World → World) :
    Ends (call >>= fun _ => modify f) w (fun _ w' => ∃ w₁, w.Called w₁ ∧ w' = f w₁) w.Failed :=
  ends_bind.mpr ((ends_call w).mono (fun _ w₁ h => ends_modify.mpr ⟨w₁, h, rfl⟩) fun _ _ h => h)

end Realwork.Receive
