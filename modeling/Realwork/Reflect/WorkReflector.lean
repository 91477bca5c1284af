import Mathlib.Data.List.Sort
import Realwork.Base.Str
import Realwork.Lib.Machine

/-!
# Reflect — the reflect process

`WorkReflector.cpp` and the loop of `Main.cpp`: the result files of the receive process are merged
into one file, the merged file is given to the OC script, and the result files are moved into the
backup directory.

* `reflecting`: the machine of the loop, in which each call of another process or of the file
  system is a step that may fail, new files arrive between any two steps, and the process may be
  killed and started again.
* `copyLoop_written`: the loop of `MergeFile` copies the whole file, whatever its size.
-/

namespace Realwork.Reflect

open Realwork.Lib

/-! ### `MergeFile` -/

def fileOpBufferSize : Nat := 1024 * 1024

/-- What happens to a chunk.  Where reading or writing sets the bad bit, `reached` is the number
of bytes written so far that have reached the file. -/
inductive ChunkResult where
  | copied
  | readBad (reached : Nat)
  | writeBad (reached : Nat)
  deriving DecidableEq

/-- The loop of `MergeFile`, on the results of its chunks: whether it is left before its end, and
the bytes given to `outfile.write`.  `leftSize` is fuel enough. -/
def copyLoop : Nat → List ChunkResult → Str → Nat → Option Nat × Str
  | _, _, _, 0 => (none, [])
  | 0, _, _, _ + 1 => (some 0, [])
  | fuel + 1, chunks, infile, leftSize + 1 =>
      let opsize := if leftSize + 1 > fileOpBufferSize then fileOpBufferSize else leftSize + 1
      match chunks.headD .copied with
      | .readBad reached => (some reached, [])
      | .writeBad reached => (some reached, infile.take opsize)
      | .copied =>
          let (bad, written) :=
            copyLoop fuel chunks.tail (infile.drop opsize) (leftSize + 1 - opsize)
          (bad, infile.take opsize ++ written)

/-- The results of the calls of one `MergeFile`. -/
structure Merging where
  openIn : Bool := true
  openOut : Bool := true
  chunks : List ChunkResult := []
  /-- When the last bytes are flushed by `outfile.close`, only so many bytes reach the file. -/
  closing : Option Nat := none
  deriving DecidableEq

/-- `MergeFile`, on the contents of its files.  What `close` does is not tested. -/
def mergeFile (m : Merging) (infile : Str) (outfile : Option Str) : Bool × Option Str :=
  if m.openIn = false then (false, outfile)
  else if m.openOut = false then (false, outfile)
  else
    let head := outfile.getD []
    match copyLoop infile.length m.chunks infile infile.length with
    | (some reached, written) => (false, some (head ++ written.take reached))
    | (none, written) =>
        match m.closing with
        | some reached => (true, some (head ++ written.take reached))
        | none => (true, some (head ++ written))

section

/-- The size of the next chunk of a file that is not at its end. -/
theorem opsize_bounds {size : Nat} (h : 0 < size) :
    0 < (if size > fileOpBufferSize then fileOpBufferSize else size) ∧
      (if size > fileOpBufferSize then fileOpBufferSize else size) ≤ size := by
  have : 0 < fileOpBufferSize := by decide
  split <;> omega

/-- One iteration on a file that is not at its end. -/
theorem copyLoop_succ (fuel : Nat) {size : Nat} (chunks : List ChunkResult) {infile : Str}
    (h : infile.length = size + 1) :
    ∃ opsize, 0 < opsize ∧ opsize ≤ size + 1 ∧
      copyLoop (fuel + 1) chunks infile infile.length =
        match chunks.headD .copied with
        | .readBad reached => (some reached, [])
        | .writeBad reached => (some reached, infile.take opsize)
        | .copied =>
            let rest := copyLoop fuel chunks.tail (infile.drop opsize) (infile.drop opsize).length
            (rest.1, infile.take opsize ++ rest.2) := by
  obtain ⟨hpos, hle⟩ := opsize_bounds (Nat.succ_pos size)
  refine ⟨_, hpos, hle, ?_⟩
  rw [h, copyLoop, List.length_drop, h]

/-- **The loop copies the whole file**, if it is not left before its end. -/
theorem copyLoop_written {fuel : Nat} {chunks : List ChunkResult} {infile written : Str}
    (h : copyLoop fuel chunks infile infile.length = (none, written)) : written = infile := by
  induction fuel generalizing chunks infile written with
  | zero =>
      cases infile with
      | nil => cases h; rfl
      | cons b infile => cases h
  | succ fuel ih =>
      cases hsize : infile.length with
      | zero =>
          rw [List.length_eq_zero_iff] at hsize
          subst hsize
          cases h; rfl
      | succ size =>
          obtain ⟨opsize, -, -, hstep⟩ := copyLoop_succ fuel chunks hsize
          rw [hstep] at h
          cases hchunk : chunks.headD .copied with
          | readBad reached => rw [hchunk] at h; cases h
          | writeBad reached => rw [hchunk] at h; cases h
          | copied =>
              rw [hchunk] at h
              obtain ⟨hbad, rfl⟩ := Prod.mk.inj h
              have hrest := ih (Prod.ext hbad rfl)
              exact (congrArg (infile.take opsize ++ ·) hrest).trans (List.take_append_drop _ _)

/-- The loop gets to its end, if no chunk fails. -/
theorem copyLoop_copied {fuel : Nat} {chunks : List ChunkResult} {infile : Str}
    (h : ∀ c ∈ chunks, c = .copied) (hfuel : infile.length ≤ fuel) :
    (copyLoop fuel chunks infile infile.length).1 = none := by
  induction fuel generalizing chunks infile with
  | zero =>
      rw [List.length_eq_zero_iff.mp (Nat.le_zero.mp hfuel)]
      rfl
  | succ fuel ih =>
      cases hsize : infile.length with
      | zero =>
          rw [copyLoop]
      | succ size =>
          obtain ⟨opsize, hpos, hle, hstep⟩ := copyLoop_succ fuel chunks hsize
          have hchunk : chunks.headD .copied = .copied := by
            cases chunks with
            | nil => rfl
            | cons c chunks => exact h c (by simp)
          rw [← hsize, hstep, hchunk]
          refine ih (fun c hc => h c (List.mem_of_mem_tail hc)) ?_
          rw [List.length_drop]
          omega

end

/-- **A `MergeFile` that returns success** has added the whole file, if the last flush is done. -/
theorem mergeFile_appends {m : Merging} {infile : Str} {outfile out : Option Str}
    (h : mergeFile m infile outfile = (true, out)) (hclosing : m.closing = none) :
    out = some (outfile.getD [] ++ infile) := by
  unfold mergeFile at h
  split at h
  · cases h
  split at h
  · cases h
  cases hloop : copyLoop infile.length m.chunks infile infile.length with
  | mk bad written =>
      rw [hloop] at h
      cases bad with
      | some reached => cases h
      | none =>
          rw [hclosing] at h
          cases h
          rw [copyLoop_written hloop]

/-! ### The loop of `main` -/

/-- Where the process is. -/
inductive Place where
  | stopped
  | polling
  /-- Before `MakeMergeFileName`. -/
  | naming
  /-- `MergeCsvFile`, before the files of `rest`. -/
  | merging (rest : List Str)
  /-- Before `CallOcReflection`. -/
  | reflecting
  /-- `MoveIntoBackup`, before the files of `rest`. -/
  | backing (rest : List Str)
  /-- `MoveIntoBackup`, before the merged file. -/
  | backingMerged
  /-- Before `DeleteMergedFile`; the process exits after it. -/
  | deleting
  deriving DecidableEq

/-- A call of the OC script: the content of the file it is given, the result files of its round,
and whether it returns success. -/
structure OcCall where
  given : Option Str
  files : List (Str × Str)
  success : Bool
  deriving DecidableEq

/-- The process and its directories.  `taken` and `calls` are not in the program: the files of
the last poll with their contents, and the calls of the script so far. -/
structure Reflector where
  place : Place := .stopped
  csvInput : List (Str × Str) := []
  csvBackup : Str → Option Str := fun _ => none
  datOutput : Str → Option Str := fun _ => none
  datBackup : Str → Option Str := fun _ => none
  csvInputFiles : List Str := []
  mergeOutputFile : Str := []
  taken : List (Str × Str) := []
  calls : List OcCall := []

/-- The name `PollCsvFile` takes a file by. -/
def isCsv (filename : Str) : Bool :=
  (lit "realwork_").isPrefixOf filename && (lit ".csv").isSuffixOf filename

def datFileName (occurTime : Str) : Str := lit "realwork_" ++ occurTime ++ lit ".dat"

/-- What comes of a `mv`.  One that is reported as failed may have moved its file. -/
inductive MvResult where
  | success
  | failure (moved : Bool)
  deriving DecidableEq

def MvResult.moves : MvResult → Bool
  | success => true
  | failure moved => moved

inductive Act where
  /-- A file with a new name appears in the input directory. -/
  | arrive (filename content : Str)
  | start
  | userStop
  /-- The process ends anywhere; a `MergeFile` that has opened its output has written `written`
  bytes of it. -/
  | killed (written : Option Nat)
  /-- `PollCsvFile`; the files of `missed` are not listed yet, or `stat` fails on them. -/
  | poll (opened : Bool) (missed : List Str)
  /-- `MakeMergeFileName`, on the time of the clock. -/
  | makeMergeFileName (occurTime : Str)
  | mergeFile (m : Merging)
  | callOcReflection (success : Bool)
  | mvCsv (result : MvResult)
  | mvMerged (result : MvResult)
  | deleteMergedFile (success : Bool)
  deriving DecidableEq

namespace Reflector

/-- The content of a file of the input directory. -/
def contentOf (s : Reflector) (filename : Str) : Option Str :=
  (s.csvInput.find? fun f => f.1 = filename).map Prod.snd

/-- The files `PollCsvFile` takes, in the order of their names. -/
def listed (s : Reflector) (missed : List Str) : List (Str × Str) :=
  (s.csvInput.filter fun f => isCsv f.1 && !missed.contains f.1).insertionSort fun f g => f.1 ≤ g.1

/-- The file of the input directory is moved into the backup directory. -/
def moveCsv (s : Reflector) (filename : Str) : Reflector :=
  match s.contentOf filename with
  | none => s
  | some content =>
      { s with
        csvInput := s.csvInput.filter fun f => f.1 ≠ filename
        csvBackup := Function.update s.csvBackup filename (some content) }

def moveMerged (s : Reflector) : Reflector :=
  match s.datOutput s.mergeOutputFile with
  | none => s
  | some content =>
      { s with
        datOutput := Function.update s.datOutput s.mergeOutputFile none
        datBackup := Function.update s.datBackup s.mergeOutputFile (some content) }

/-- `MergeFile` for the next result file; one that is not there cannot be opened. -/
def mergeNext (s : Reflector) (m : Merging) (filename : Str) : Bool × Reflector :=
  match s.contentOf filename with
  | none => (false, s)
  | some content =>
      let (ok, outfile) := Reflect.mergeFile m content (s.datOutput s.mergeOutputFile)
      (ok, { s with datOutput := Function.update s.datOutput s.mergeOutputFile outfile })

def step : Act → Reflector → Option Reflector
  | .arrive filename content, s =>
      if (s.contentOf filename).isSome then none
      else some { s with csvInput := s.csvInput ++ [(filename, content)] }
  | .start, s =>
      match s.place with
      | .stopped =>
          some { s with place := .polling, csvInputFiles := [], mergeOutputFile := [], taken := [] }
      | _ => none
  | .userStop, s =>
      match s.place with
      | .polling => some { s with place := .stopped }
      | _ => none
  | .killed written, s =>
      match s.place with
      | .stopped => none
      | .merging (filename :: _) =>
          match written with
          | none => some { s with place := .stopped }
          | some _ =>
              let (_, s') := s.mergeNext { closing := written } filename
              some { s' with place := .stopped }
      | _ => some { s with place := .stopped }
  | .poll opened missed, s =>
      match s.place with
      | .polling =>
          if opened then
            let taken := s.listed missed
            let place := if taken = [] then .polling else .naming
            some { s with place, taken, csvInputFiles := taken.map Prod.fst }
          else some { s with place := .stopped, taken := [], csvInputFiles := [] }
      | _ => none
  | .makeMergeFileName occurTime, s =>
      match s.place with
      | .naming =>
          some { s with
            place := .merging s.csvInputFiles, mergeOutputFile := datFileName occurTime }
      | _ => none
  | .mergeFile m, s =>
      match s.place with
      | .merging (filename :: rest) =>
          let (ok, s') := s.mergeNext m filename
          let next := if rest = [] then .reflecting else .merging rest
          some { s' with place := if ok then next else .deleting }
      | _ => none
  | .callOcReflection success, s =>
      match s.place with
      | .reflecting =>
          let call := ⟨s.datOutput s.mergeOutputFile, s.taken, success⟩
          some { s with
            calls := s.calls ++ [call]
            place := if success then .backing s.csvInputFiles else .deleting }
      | _ => none
  | .mvCsv result, s =>
      match s.place with
      | .backing (filename :: rest) =>
          let s' := if result.moves then s.moveCsv filename else s
          let next := if rest = [] then .backingMerged else .backing rest
          some { s' with place := if result = .success then next else .deleting }
      | _ => none
  | .mvMerged result, s =>
      match s.place with
      | .backingMerged =>
          let s' := if result.moves then s.moveMerged else s
          some { s' with place := if result = .success then .polling else .deleting }
      | _ => none
  | .deleteMergedFile success, s =>
      match s.place with
      | .deleting =>
          let datOutput :=
            if success then Function.update s.datOutput s.mergeOutputFile none else s.datOutput
          some { s with place := .stopped, datOutput }
      | _ => none

end Reflector

/-- The reflect process, whatever its directories hold before its first start. -/
def reflecting : Machine Reflector Act where
  start s := s.place = .stopped ∧ s.calls = [] ∧ (s.csvInput.map Prod.fst).Nodup
  step := Reflector.step

end Realwork.Reflect
