import Realwork.Base.Str
import Realwork.Lib.Machine

/-!
# Reflect — the archive of the backup directories

`reflect_tar_del.sh`: the files of the two backup directories are put into an archive each and
removed, and archives older than `$KEEP_DAYS` are deleted.  The reflect process moves files into the
directories at any time.  `$filelist` is a pattern, which the shell expands for `tar` and again for
`rm`.

* `Inv`: where the files are that have been moved into the directories.
* `archiving_keeps`: each of them is still there or in an archive, unless another one of its name
  took its place, it came between the `tar` and the `rm`, or its archive was too old.
* `archiving_keeps_lateRun`: one that came between them is lost.
-/

namespace Realwork.Reflect

open Lib

namespace Archive

/-! ### The script -/

/-- `*.csv` of `$BACKUP_CSV_DIR` and `*.dat` of `$BACKUP_DAT_DIR` -/
inductive Kind where
  | csv
  | dat
deriving DecidableEq

structure File where
  kind : Kind
  name : Str
  content : Str
deriving DecidableEq

/-- A `.tar` file, or a `.tar.gz` file.  Its name is the time it was made at and the kind. -/
structure TarFile where
  time : Nat
  kind : Kind
  members : List File
  gz : Bool := false
deriving DecidableEq

/-- Where the script is. -/
inductive Place where
  | notRunning
  | cleanUp
  | list (kind : Kind)
  | tar (kind : Kind)
  | gzip (kind : Kind) (time : Nat)
  | remove (kind : Kind) (time : Nat)
deriving DecidableEq

/-- The directories, and where the script is.  The rest is not in the program: the files that have
been moved into the directories, those whose place another one took, with that one, those that came
between the `tar` and the `rm` of their kind, those that `rm` removed and `tar` has not read, and
the archives that were deleted, each with the time. -/
structure Backup where
  dir : Kind → List File := fun _ => []
  archive : List TarFile := []
  place : Place := .notRunning
  arrived : List File := []
  replaced : List (File × File) := []
  late : List File := []
  lost : List File := []
  expired : List (TarFile × Nat) := []

/-- What happens next.  A command that fails takes the script to its end. -/
inductive Action where
  /-- The reflect process moves a file into its directory. -/
  | arrive (file : File)
  | start
  /-- `CleanUp` at the time `now`; `rm` fails at an archive. -/
  | cleanUp (now : Nat) (failsAt : Option Nat)
  | list
  /-- `tar` at the time `time`; it fails with some of the members written. -/
  | tar (time : Nat) (failsAt : Option Nat)
  | gzip (fails : Bool)
  /-- `rm` can not remove some files. -/
  | remove (fails : List File)

/-- The command behind the archive of a kind. -/
def next : Kind → Place
  | .csv => .list .dat
  | .dat => .notRunning

/-- `find -name "??????????????_???.tar.gz" -mtime "+$KEEP_DAYS"` -/
def TarFile.Old (keepDays now : Nat) (t : TarFile) : Prop :=
  t.gz = true ∧ keepDays < (now - t.time) / 86400

instance (keepDays now : Nat) : DecidablePred (TarFile.Old keepDays now) := fun t =>
  inferInstanceAs (Decidable (t.gz = true ∧ keepDays < (now - t.time) / 86400))

/-- `gzip` of an archive, when it is the one of the kind and the time. -/
def TarFile.gzip (kind : Kind) (time : Nat) (t : TarFile) : TarFile :=
  if t.kind = kind ∧ t.time = time then { t with gz := true } else t

/-- Whether files can come late, and how: the kind whose files `rm` will remove. -/
def Place.removing : Place → Option Kind
  | gzip kind _ | remove kind _ => some kind
  | _ => none

theorem removing_eq_some {place : Place} {kind : Kind} {time : Nat}
    (h : place = .gzip kind time ∨ place = .remove kind time) : place.removing = some kind := by
  rcases h with rfl | rfl <;> rfl

/-- The members of the archive the script has made. -/
def Backup.membersOf (s : Backup) (kind : Kind) (time : Nat) : List File :=
  (s.archive.filter fun t => t.kind = kind ∧ t.time = time).flatMap TarFile.members

/-- A file is moved into a directory, over the file of its name if there is one. -/
def Backup.arrive (s : Backup) (file : File) : Backup :=
  { s with
    dir := fun kind =>
      if kind = file.kind then (s.dir kind).filter (·.name ≠ file.name) ++ [file] else s.dir kind
    arrived := s.arrived ++ [file]
    replaced := s.replaced ++ ((s.dir file.kind).filter (·.name = file.name)).map (·, file)
    late := if s.place.removing = some file.kind then s.late ++ [file] else s.late }

/-- The script does its next command. -/
def Backup.step (keepDays : Nat) : Action → Backup → Option Backup
  | .arrive file, s => some (s.arrive file)
  | .start, s => if s.place = .notRunning then some { s with place := .cleanUp } else none
  | .cleanUp now failsAt, s =>
      if s.place = .cleanUp then
        let filelist := s.archive.filter (TarFile.Old keepDays now)
        let gone := filelist.take (failsAt.getD filelist.length)
        some { s with
          archive := s.archive.filter (· ∉ gone)
          expired := s.expired ++ gone.map (·, now)
          place := if failsAt.isSome then .notRunning else .list .csv }
      else none
  | .list, s =>
      match s.place with
      | .list kind => some { s with place := if s.dir kind = [] then next kind else .tar kind }
      | _ => none
  | .tar time failsAt, s =>
      match s.place with
      | .tar kind =>
          let members := (s.dir kind).take (failsAt.getD (s.dir kind).length)
          some { s with
            archive := (s.archive.filter fun t => ¬ (t.kind = kind ∧ t.time = time ∧ !t.gz)) ++
              [{ time, kind, members }]
            place := if failsAt.isSome then .notRunning else .gzip kind time }
      | _ => none
  | .gzip fails, s =>
      match s.place with
      | .gzip kind time =>
          if fails then some { s with place := .notRunning }
          -- it does not write over a file
          else if s.archive.any fun t => t.kind = kind ∧ t.time = time ∧ t.gz then none
          else some { s with
            archive := s.archive.map (TarFile.gzip kind time)
            place := .remove kind time }
      | _ => none
  | .remove fails, s =>
      match s.place with
      | .remove kind time =>
          let gone := (s.dir kind).filter (· ∉ fails)
          some { s with
            dir := fun k => if k = kind then (s.dir kind).filter (· ∈ fails) else s.dir k
            lost := s.lost ++ gone.filter (· ∉ s.membersOf kind time)
            place := if ((s.dir kind).filter (· ∈ fails)).isEmpty then next kind else .notRunning }
      | _ => none

def archiving (keepDays : Nat) : Machine Backup Action where
  start := (· = {})
  step := Backup.step keepDays

/-- `tar` is not called twice in one second for files of a kind. -/
def Fresh : Action → Backup → Prop
  | .tar time _, s => ∀ t ∈ s.archive, s.place = .tar t.kind → t.time ≠ time
  | _, _ => True

instance (a : Action) (s : Backup) : Decidable (Fresh a s) := by
  cases a <;> simp only [Fresh] <;> infer_instance

/-! ### Where the files are -/

/-- What holds in every state. -/
structure Inv (keepDays : Nat) (s : Backup) : Prop where
  kinds : ∀ kind, ∀ f ∈ s.dir kind, f.kind = kind
  there : ∀ kind, ∀ f ∈ s.dir kind, f ∈ s.arrived
  held : ∀ f ∈ s.arrived, f ∈ s.dir f.kind ∨ (∃ t ∈ s.archive, f ∈ t.members) ∨
    (∃ e ∈ s.expired, f ∈ e.1.members) ∨ (∃ g, (f, g) ∈ s.replaced) ∨ f ∈ s.lost
  replaced : ∀ p ∈ s.replaced, p.1.kind = p.2.kind ∧ p.1.name = p.2.name ∧
    [p.1, p.2].Sublist s.arrived
  made : ∀ kind time, s.place = .gzip kind time ∨ s.place = .remove kind time →
    ∀ f ∈ s.dir kind, f ∈ s.membersOf kind time ∨ f ∈ s.late
  lost : ∀ f ∈ s.lost, f ∈ s.late
  old : ∀ e ∈ s.expired, e.1.Old keepDays e.2

section

variable {keepDays : Nat} {s s' : Backup} {file f : File} {kind : Kind} {time : Nat}

theorem mem_membersOf : f ∈ s.membersOf kind time ↔
    ∃ t ∈ s.archive, (t.kind = kind ∧ t.time = time) ∧ f ∈ t.members := by
  simp [Backup.membersOf, and_assoc]

theorem mem_dir_arrive : f ∈ (s.arrive file).dir kind ↔
    f ∈ s.dir kind ∧ ¬ (kind = file.kind ∧ f.name = file.name) ∨ f = file ∧ kind = file.kind := by
  rw [Backup.arrive]
  dsimp only
  split
  · rename_i hkind
    simp [hkind]
  · rename_i hkind
    simp [hkind]

theorem mem_late_arrive (h : f ∈ s.late) : f ∈ (s.arrive file).late := by
  rw [Backup.arrive]
  dsimp only
  split
  · exact List.mem_append_left _ h
  · exact h

theorem Inv.arrive (h : Inv keepDays s) (file : File) : Inv keepDays (s.arrive file) where
  kinds kind f hf := by
    obtain ⟨hf, -⟩ | ⟨rfl, hkind⟩ := mem_dir_arrive.mp hf
    · exact h.kinds kind f hf
    · exact hkind.symm
  there kind f hf := by
    obtain ⟨hf, -⟩ | ⟨rfl, -⟩ := mem_dir_arrive.mp hf
    · exact List.mem_append_left _ (h.there kind f hf)
    · exact List.mem_append_right _ List.mem_cons_self
  held f hf := by
    rcases List.mem_append.mp hf with hf | hf
    · rcases h.held f hf with hdir | harchive | hexpired | ⟨g, hg⟩ | hlost
      · by_cases hsame : f.kind = file.kind ∧ f.name = file.name
        · -- its place is taken
          refine .inr (.inr (.inr (.inl ⟨file, List.mem_append_right _ ?_⟩)))
          refine List.mem_map.mpr ⟨f, List.mem_filter.mpr ⟨hsame.1 ▸ hdir, ?_⟩, rfl⟩
          exact decide_eq_true hsame.2
        · exact .inl (mem_dir_arrive.mpr (.inl ⟨hdir, hsame⟩))
      · exact .inr (.inl harchive)
      · exact .inr (.inr (.inl hexpired))
      · exact .inr (.inr (.inr (.inl ⟨g, List.mem_append_left _ hg⟩)))
      · exact .inr (.inr (.inr (.inr hlost)))
    · obtain rfl := List.mem_singleton.mp hf
      exact .inl (mem_dir_arrive.mpr (.inr ⟨rfl, rfl⟩))
  replaced p hp := by
    rcases List.mem_append.mp hp with hp | hp
    · obtain ⟨hkind, hname, hsub⟩ := h.replaced p hp
      exact ⟨hkind, hname, hsub.trans (List.sublist_append_left _ _)⟩
    · obtain ⟨f, hf, rfl⟩ := List.mem_map.mp hp
      obtain ⟨hdir, hname⟩ := List.mem_filter.mp hf
      refine ⟨h.kinds _ f hdir, of_decide_eq_true hname, ?_⟩
      have hbefore := List.singleton_sublist.mpr (h.there _ f hdir)
      exact hbefore.append (List.Sublist.refl [file])
  made kind time hplace f hf := by
    obtain ⟨hf, -⟩ | ⟨rfl, rfl⟩ := mem_dir_arrive.mp hf
    · exact (h.made kind time hplace f hf).imp_right mem_late_arrive
    · have hremoving : s.place.removing = some f.kind := by
        rcases hplace with hplace | hplace
        · exact congrArg Place.removing hplace
        · exact congrArg Place.removing hplace
      refine .inr ?_
      rw [Backup.arrive]
      dsimp only
      rw [if_pos hremoving]
      exact List.mem_append_right _ List.mem_cons_self
  lost f hf := mem_late_arrive (h.lost f hf)
  old := h.old

/-- The script goes on without touching the files. -/
theorem Inv.goOn (h : Inv keepDays s) {place : Place} (hplace : place.removing = none) :
    Inv keepDays { s with place } where
  kinds := h.kinds
  there := h.there
  held := h.held
  replaced := h.replaced
  made kind time hmade := by
    cases hplace.symm.trans (removing_eq_some hmade)
  lost := h.lost
  old := h.old

/-- The archives that are too old are deleted. -/
theorem Inv.cleanUp (h : Inv keepDays s) {now : Nat} {gone : List TarFile}
    (hgone : ∀ t ∈ gone, t.Old keepDays now) {place : Place} (hplace : place.removing = none) :
    Inv keepDays { s with
      archive := s.archive.filter (· ∉ gone)
      expired := s.expired ++ gone.map (·, now)
      place } := by
  refine ⟨h.kinds, h.there, fun f hf => ?_, h.replaced, fun kind time hmade f hf => ?_, h.lost,
    fun e he => ?_⟩
  · rcases h.held f hf with hdir | ⟨t, ht, hmem⟩ | ⟨e, he, hmem⟩ | hlost
    · exact .inl hdir
    · by_cases hg : t ∈ gone
      · refine .inr (.inr (.inl ⟨(t, now), List.mem_append_right _ ?_, hmem⟩))
        exact List.mem_map_of_mem hg
      · exact .inr (.inl ⟨t, List.mem_filter.mpr ⟨ht, decide_eq_true hg⟩, hmem⟩)
    · exact .inr (.inr (.inl ⟨e, List.mem_append_left _ he, hmem⟩))
    · exact .inr (.inr (.inr hlost))
  · -- no archive is being made
    cases hplace.symm.trans (removing_eq_some hmade)
  · rcases List.mem_append.mp he with he | he
    · exact h.old e he
    · obtain ⟨t, ht, rfl⟩ := List.mem_map.mp he
      exact hgone t ht

/-- An archive is made, of some of the files. -/
theorem Inv.tar (h : Inv keepDays s) (hfresh : ∀ t ∈ s.archive, t.kind = kind → t.time ≠ time)
    {n : Nat}
    {place : Place}
    (hplace : place.removing = none ∨ place = .gzip kind time ∧ n = (s.dir kind).length) :
    Inv keepDays { s with
      archive := (s.archive.filter fun t => ¬ (t.kind = kind ∧ t.time = time ∧ !t.gz)) ++
        [{ time, kind, members := (s.dir kind).take n }]
      place } := by
  have hall : (s.archive.filter fun t => ¬ (t.kind = kind ∧ t.time = time ∧ !t.gz)) =
      s.archive :=
    List.filter_eq_self.mpr fun t ht => decide_eq_true fun heq => hfresh t ht heq.1 heq.2.1
  rw [hall]
  refine ⟨h.kinds, h.there, fun f hf => ?_, h.replaced, fun kind' time' hmade f hf => ?_, h.lost,
    h.old⟩
  · refine (h.held f hf).imp_right (Or.imp_left ?_)
    rintro ⟨t, ht, hmem⟩
    exact ⟨t, List.mem_append_left _ ht, hmem⟩
  · rcases hplace with hplace | ⟨rfl, rfl⟩
    · cases hplace.symm.trans (removing_eq_some hmade)
    · obtain hmade | hmade := hmade
      · cases hmade
        refine .inl (mem_membersOf.mpr
          ⟨_, List.mem_append_right _ List.mem_cons_self, ⟨rfl, rfl⟩, ?_⟩)
        rw [List.take_length]
        exact hf
      · cases hmade

theorem gzip_members (kind : Kind) (time : Nat) (t : TarFile) :
    (t.gzip kind time).kind = t.kind ∧ (t.gzip kind time).time = t.time ∧
      (t.gzip kind time).members = t.members := by
  rw [TarFile.gzip]
  split <;> exact ⟨rfl, rfl, rfl⟩

/-- The archive is compressed. -/
theorem Inv.gzip (h : Inv keepDays s) (hplace : s.place = .gzip kind time) :
    Inv keepDays { s with
      archive := s.archive.map (TarFile.gzip kind time)
      place := .remove kind time } := by
  refine ⟨h.kinds, h.there, fun f hf => ?_, h.replaced, fun kind' time' hmade f hf => ?_, h.lost,
    h.old⟩
  · refine (h.held f hf).imp_right (Or.imp_left ?_)
    rintro ⟨t, ht, hmem⟩
    refine ⟨_, List.mem_map_of_mem ht, ?_⟩
    rwa [(gzip_members kind time t).2.2]
  · obtain hmade | hmade := hmade
    · cases hmade
    · cases hmade
      refine (h.made kind time (.inl hplace) f hf).imp_left fun hmem => ?_
      obtain ⟨t, ht, ⟨hkind, htime⟩, hmem⟩ := mem_membersOf.mp hmem
      obtain ⟨hkind', htime', hmembers⟩ := gzip_members kind time t
      exact mem_membersOf.mpr ⟨_, List.mem_map_of_mem ht, ⟨hkind'.trans hkind, htime'.trans htime⟩,
        hmembers ▸ hmem⟩

/-- The files are removed, but some. -/
theorem Inv.remove (h : Inv keepDays s) (hplace : s.place = .remove kind time) {fails : List File}
    {place : Place} (hnext : place.removing = none) :
    Inv keepDays { s with
      dir := fun k => if k = kind then (s.dir kind).filter (· ∈ fails) else s.dir k
      lost := s.lost ++ ((s.dir kind).filter (· ∉ fails)).filter (· ∉ s.membersOf kind time)
      place } := by
  have hdir {kind' : Kind} {f : File}
      (hf : f ∈ if kind' = kind then (s.dir kind).filter (· ∈ fails) else s.dir kind') :
      f ∈ s.dir kind' := by
    split at hf
    · rename_i hkind
      exact hkind ▸ (List.mem_filter.mp hf).1
    · exact hf
  refine ⟨fun kind' f hf => h.kinds kind' f (hdir hf), fun kind' f hf => h.there kind' f (hdir hf),
    fun f hf => ?_, h.replaced, fun kind' time' hmade f hf => ?_, fun f hf => ?_, h.old⟩
  · rcases h.held f hf with hdir | harchive | hexpired | hreplaced | hlost
    · by_cases hkind : f.kind = kind
      · by_cases hfails : f ∈ fails
        · refine .inl ?_
          dsimp only
          rw [if_pos hkind]
          exact List.mem_filter.mpr ⟨hkind ▸ hdir, decide_eq_true hfails⟩
        · by_cases hmem : f ∈ s.membersOf kind time
          · obtain ⟨t, ht, -, hmem⟩ := mem_membersOf.mp hmem
            exact .inr (.inl ⟨t, ht, hmem⟩)
          · refine .inr (.inr (.inr (.inr (List.mem_append_right _ ?_))))
            simp only [List.mem_filter, decide_eq_true_eq]
            exact ⟨⟨hkind ▸ hdir, hfails⟩, hmem⟩
      · refine .inl ?_
        dsimp only
        rwa [if_neg hkind]
    · exact .inr (.inl harchive)
    · exact .inr (.inr (.inl hexpired))
    · exact .inr (.inr (.inr (.inl hreplaced)))
    · exact .inr (.inr (.inr (.inr (List.mem_append_left _ hlost))))
  · cases hnext.symm.trans (removing_eq_some hmade)
  · rcases List.mem_append.mp hf with hf | hf
    · exact h.lost f hf
    · simp only [List.mem_filter, decide_eq_true_eq] at hf
      exact (h.made kind time (.inr hplace) f hf.1.1).resolve_left hf.2

theorem removing_next (kind : Kind) : (next kind).removing = none := by cases kind <;> rfl

/-- **A step**, of the script or of the reflect process. -/
theorem Inv.step (h : Inv keepDays s) {a : Action} (hfresh : Fresh a s)
    (hstep : s.step keepDays a = some s') : Inv keepDays s' := by
  cases a with
  | arrive file =>
      cases hstep
      exact h.arrive file
  | start =>
      simp only [Backup.step] at hstep
      split at hstep
      · cases hstep
        exact h.goOn rfl
      · cases hstep
  | cleanUp now failsAt =>
      simp only [Backup.step] at hstep
      split at hstep
      · cases hstep
        refine h.cleanUp (fun t ht => ?_) (by split <;> rfl)
        exact of_decide_eq_true (List.mem_filter.mp (List.mem_of_mem_take ht)).2
      · cases hstep
  | list =>
      simp only [Backup.step] at hstep
      split at hstep
      · cases hstep
        refine h.goOn ?_
        split
        · exact removing_next _
        · rfl
      · cases hstep
  | tar time failsAt =>
      simp only [Backup.step] at hstep
      split at hstep
      · rename_i kind hplace
        cases hstep
        refine h.tar (fun t ht hkind => hfresh t ht (hkind ▸ hplace)) ?_
        cases failsAt with
        | none => exact .inr ⟨rfl, rfl⟩
        | some n => exact .inl rfl
      · cases hstep
  | gzip fails =>
      simp only [Backup.step] at hstep
      split at hstep
      · rename_i kind time hplace
        split at hstep
        · cases hstep
          exact h.goOn rfl
        · split at hstep
          · cases hstep
          · cases hstep
            exact h.gzip hplace
      · cases hstep
  | remove fails =>
      simp only [Backup.step] at hstep
      split at hstep
      · rename_i kind time hplace
        cases hstep
        refine h.remove hplace ?_
        split
        · exact removing_next _
        · rfl
      · cases hstep

end

/-- **No file is lost** but those that come between the `tar` and the `rm` of their kind: the others
are in their directory or in an archive, or their archive was too old, or a later one of their name
took their place. -/
theorem archiving_keeps {keepDays : Nat} {s : Backup}
    (hs : (archiving keepDays).Reach Fresh s) :
    (∀ f ∈ s.arrived, f ∈ s.dir f.kind ∨ (∃ t ∈ s.archive, f ∈ t.members) ∨
      (∃ e ∈ s.expired, f ∈ e.1.members ∧ e.1.Old keepDays e.2) ∨
      (∃ g, (f, g) ∈ s.replaced) ∨ f ∈ s.lost) ∧
    (∀ p ∈ s.replaced, p.1.kind = p.2.kind ∧ p.1.name = p.2.name ∧
      [p.1, p.2].Sublist s.arrived) ∧
    ∀ f ∈ s.lost, f ∈ s.late := by
  have hinv : Inv keepDays s := by
    refine hs.invariant (fun s hstart => ?_) fun a s s' h hfresh hstep => h.step hfresh hstep
    cases hstart
    exact ⟨by simp, by simp, by simp, by simp, by simp, by simp, by simp⟩
  refine ⟨fun f hf => ?_, hinv.replaced, hinv.lost⟩
  refine (hinv.held f hf).imp_right (Or.imp_right (Or.imp_left ?_))
  rintro ⟨e, he, hmem⟩
  exact ⟨e, he, hmem, hinv.old e he⟩

/-- Two files; the second one comes while the archive of the first one is compressed. -/
def lateRun : List Action :=
  [.arrive ⟨.csv, lit "realwork_1.csv", lit "A,1\n"⟩, .start, .cleanUp 100 none, .list,
    .tar 100 none, .arrive ⟨.csv, lit "realwork_2.csv", lit "A,2\n"⟩, .gzip false, .remove []]

/-- The second file is removed, and is in no archive. -/
theorem archiving_keeps_lateRun :
    ∃ s, (archiving 30).exec lateRun {} = some s ∧ s.dir .csv = [] ∧
      s.archive.flatMap TarFile.members = [⟨.csv, lit "realwork_1.csv", lit "A,1\n"⟩] ∧
      s.lost = [⟨.csv, lit "realwork_2.csv", lit "A,2\n"⟩] ∧ ∀ f ∈ s.lost, f ∈ s.late := by
  have hmeets : (archiving 30).Meets Fresh lateRun {} := by decide
  exact ⟨_, rfl, rfl, rfl, rfl, (archiving_keeps (.of_exec (.start rfl) hmeets rfl)).2.2⟩

end Archive

end Realwork.Reflect
