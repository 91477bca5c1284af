import Realwork.Reflect.WorkReflector

/-!
# Reflect — no result file is lost

* `Inv`: what holds in every state of a run in which the merged files have new names and their
  last flushes are done.
* `reflecting_keeps`: in such a run the script is given the contents of exactly the files of its
  round, and a file leaves the input directory only after that, for the backup directory.
-/

namespace Realwork.Reflect

open Realwork.Lib

/-! ### The invariant -/

/-- The contents of files, one after the other. -/
def merged (files : List (Str × Str)) : Str := files.flatMap Prod.snd

@[simp] theorem merged_append (files files' : List (Str × Str)) :
    merged (files ++ files') = merged files ++ merged files' := List.flatMap_append

/-- The files are in the order of their names. -/
def Ordered (files : List (Str × Str)) : Prop := files.Pairwise fun f g => f.1 ≤ g.1

/-- The script has been given exactly the contents of the files of its round. -/
def OcCall.Exact (c : OcCall) : Prop := c.given = some (merged c.files) ∧ Ordered c.files

namespace Reflector

/-- The files of the round are in the input directory, or were until they were moved. -/
structure Round (s : Reflector) (left : List (Str × Str)) : Prop where
  names : s.csvInputFiles = s.taken.map Prod.fst
  nodup : (s.taken.map Prod.fst).Nodup
  ordered : Ordered s.taken
  there : ∀ f ∈ left, f ∈ s.csvInput

/-- The script has returned success for the files of the round. -/
def Reflected (s : Reflector) : Prop := ∃ c ∈ s.calls, c.success = true ∧ c.files = s.taken

/-- What holds at the place where the process is. -/
def Placed (s : Reflector) : Prop :=
  match s.place with
  | .naming => s.Round s.taken ∧ s.taken ≠ []
  | .merging rest => s.Round s.taken ∧ ∃ done todo, s.taken = done ++ todo ∧
      todo.map Prod.fst = rest ∧ todo ≠ [] ∧
      s.datOutput s.mergeOutputFile = if done = [] then none else some (merged done)
  | .reflecting => s.Round s.taken ∧ s.datOutput s.mergeOutputFile = some (merged s.taken)
  | .backing rest => s.Reflected ∧ ∃ gone todo, s.taken = gone ++ todo ∧
      todo.map Prod.fst = rest ∧ s.Round todo
  | _ => True

/-- The invariant of the runs. -/
structure Inv (s : Reflector) : Prop where
  nodup : (s.csvInput.map Prod.fst).Nodup
  calls : ∀ c ∈ s.calls, c.Exact
  placed : s.Placed

end Reflector

/-- The merged file gets a name no file of the output directory has, and what `close` flushes
reaches it. -/
def Intended : Act → Reflector → Prop
  | .makeMergeFileName occurTime, s => s.datOutput (datFileName occurTime) = none
  | .mergeFile m, _ => m.closing = none
  | _, _ => True

instance (a : Act) (s : Reflector) : Decidable (Intended a s) := by
  cases a <;> simp only [Intended] <;> infer_instance

namespace Reflector

/-! ### The files of the input directory -/

section

variable {s s' : Reflector}

theorem contentOf_eq_some (h : (s.csvInput.map Prod.fst).Nodup) {filename content : Str} :
    s.contentOf filename = some content ↔ (filename, content) ∈ s.csvInput := by
  rw [contentOf, Option.map_eq_some_iff]
  constructor
  · rintro ⟨f, hf, rfl⟩
    have hname : f.1 = filename := by simpa using List.find?_some hf
    rw [← hname]
    exact List.mem_of_find?_eq_some hf
  · intro hm
    obtain ⟨g, hg⟩ : ∃ g, (s.csvInput.find? fun f => f.1 = filename) = some g :=
      Option.isSome_iff_exists.mp (List.find?_isSome.mpr ⟨_, hm, by simp⟩)
    have hname : g.1 = filename := by simpa using List.find?_some hg
    have hsame := List.inj_on_of_nodup_map h (List.mem_of_find?_eq_some hg) hm hname
    exact ⟨g, hg, by rw [hsame]⟩

/-- The files of a poll are in the input directory, each once, in the order of their names. -/
theorem listed_spec (h : (s.csvInput.map Prod.fst).Nodup) (missed : List Str) :
    (∀ f ∈ s.listed missed, f ∈ s.csvInput) ∧ ((s.listed missed).map Prod.fst).Nodup ∧
      Ordered (s.listed missed) := by
  have hperm := List.perm_insertionSort (fun f g : Str × Str => f.1 ≤ g.1)
    (s.csvInput.filter fun f => isCsv f.1 && !missed.contains f.1)
  have : Std.Total fun f g : Str × Str => f.1 ≤ g.1 := ⟨fun f g => List.le_total f.1 g.1⟩
  have : IsTrans (Str × Str) fun f g => f.1 ≤ g.1 := ⟨fun _ _ _ => List.le_trans⟩
  refine ⟨fun f hf => (List.mem_filter.mp (hperm.mem_iff.mp hf)).1, ?_,
    List.pairwise_insertionSort _ _⟩
  exact (hperm.map _).nodup_iff.mpr (h.sublist (List.filter_sublist.map _))

/-- The file of the round that comes next. -/
theorem Round.contentOf (h : (s.csvInput.map Prod.fst).Nodup) {f : Str × Str}
    {left : List (Str × Str)} (hr : s.Round (f :: left)) : s.contentOf f.1 = some f.2 :=
  (contentOf_eq_some h).mpr (hr.there f (by simp))

/-- A round goes on beside what changes neither it nor the files it has left. -/
theorem Round.congr {left left' : List (Str × Str)} (h : s.Round left)
    (htaken : s'.taken = s.taken) (hfiles : s'.csvInputFiles = s.csvInputFiles)
    (hthere : ∀ f ∈ left', f ∈ s'.csvInput) : s'.Round left' :=
  ⟨by rw [hfiles, h.names, htaken], htaken ▸ h.nodup, htaken ▸ h.ordered, hthere⟩

/-! ### The steps -/

/-- A file with a new name arrives. -/
theorem Inv.arrive (h : s.Inv) {filename content : Str}
    (hs : s.step (.arrive filename content) = some s') : s'.Inv := by
  simp only [step] at hs
  split at hs
  · cases hs
  rename_i hnew
  cases hs
  have hgrow : ∀ {left place}, s.Round left →
      Round { s with place, csvInput := s.csvInput ++ [(filename, content)] } left := fun hr =>
    hr.congr rfl rfl fun f hf => List.mem_append_left _ (hr.there f hf)
  refine ⟨?_, h.calls, ?_⟩
  · rw [List.map_append, List.nodup_append]
    refine ⟨h.nodup, by simp, ?_⟩
    intro name hname name' hname' heq
    obtain rfl : name' = filename := by simpa using hname'
    obtain ⟨f, hf, rfl⟩ := List.mem_map.mp hname
    refine hnew (Option.isSome_iff_exists.mpr ⟨f.2, (contentOf_eq_some h.nodup).mpr ?_⟩)
    rw [← heq]
    exact hf
  · have hp := h.placed
    unfold Placed at hp ⊢
    cases hplace : s.place with
    | naming =>
        simp only [hplace] at hp ⊢
        exact ⟨hgrow hp.1, hp.2⟩
    | merging rest =>
        simp only [hplace] at hp ⊢
        exact ⟨hgrow hp.1, hp.2⟩
    | reflecting =>
        simp only [hplace] at hp ⊢
        exact ⟨hgrow hp.1, hp.2⟩
    | backing rest =>
        simp only [hplace] at hp ⊢
        obtain ⟨hrefl, gone, todo, htaken, hrest, hround⟩ := hp
        exact ⟨hrefl, gone, todo, htaken, hrest, hgrow hround⟩
    | _ => trivial

/-- At a place with no files in hand nothing is asked of the state. -/
theorem Inv.idle (h : s.Inv) (hinput : s'.csvInput = s.csvInput) (hcalls : s'.calls = s.calls)
    (hplace : s'.place = .stopped ∨ s'.place = .polling ∨ s'.place = .deleting) : s'.Inv := by
  refine ⟨hinput ▸ h.nodup, hcalls ▸ h.calls, ?_⟩
  unfold Placed
  rcases hplace with hplace | hplace | hplace <;> rw [hplace] <;> trivial

theorem Inv.poll (h : s.Inv) {opened : Bool} {missed : List Str}
    (hs : s.step (.poll opened missed) = some s') : s'.Inv := by
  simp only [step] at hs
  split at hs
  · split at hs
    · by_cases htaken : s.listed missed = []
      · rw [if_pos htaken] at hs
        cases hs
        exact h.idle rfl rfl (.inr (.inl rfl))
      · rw [if_neg htaken] at hs
        cases hs
        obtain ⟨hthere, hnodup, hordered⟩ := listed_spec h.nodup missed
        exact ⟨h.nodup, h.calls, ⟨rfl, hnodup, hordered, hthere⟩, htaken⟩
    · cases hs
      exact h.idle rfl rfl (.inl rfl)
  · cases hs

theorem Inv.makeMergeFileName (h : s.Inv) {occurTime : Str}
    (hc : Intended (.makeMergeFileName occurTime) s)
    (hs : s.step (.makeMergeFileName occurTime) = some s') : s'.Inv := by
  simp only [step] at hs
  split at hs
  · rename_i hplace
    cases hs
    have hp := h.placed
    simp only [Placed, hplace] at hp
    obtain ⟨hround, hne⟩ := hp
    refine ⟨h.nodup, h.calls, hround.congr rfl rfl hround.there, [], s.taken, rfl,
      hround.names.symm, hne, hc⟩
  · cases hs

theorem mergeNext_eq {m : Merging} {filename content : Str}
    (h : s.contentOf filename = some content) :
    s.mergeNext m filename =
      ((mergeFile m content (s.datOutput s.mergeOutputFile)).1,
        { s with
          datOutput := Function.update s.datOutput s.mergeOutputFile
            (mergeFile m content (s.datOutput s.mergeOutputFile)).2 }) := by
  simp only [mergeNext, h]

/-- `MergeFile` changes no directory but that of the merged files. -/
theorem mergeNext_frame (s : Reflector) (m : Merging) (filename : Str) :
    (s.mergeNext m filename).2.csvInput = s.csvInput ∧
      (s.mergeNext m filename).2.calls = s.calls := by
  unfold mergeNext
  split <;> exact ⟨rfl, rfl⟩

/-- A `MergeFile` that returns success adds a file to what has been merged. -/
theorem mergeFile_merged {m : Merging} {f : Str × Str} {done : List (Str × Str)}
    {outfile : Option Str} (hc : m.closing = none)
    (houtfile : outfile = if done = [] then none else some (merged done))
    (hok : (Reflect.mergeFile m f.2 outfile).1 = true) :
    (Reflect.mergeFile m f.2 outfile).2 = some (merged (done ++ [f])) := by
  have hdone : outfile.getD [] = merged done := by
    rw [houtfile]
    split
    · rename_i hnil
      rw [hnil]
      rfl
    · rfl
  have hout := mergeFile_appends (Prod.ext hok rfl) hc
  rw [hdone] at hout
  refine hout.trans ?_
  rw [merged_append]
  simp [merged]

/-- A `MergeFile` that returns success has added the next file of the round. -/
theorem Inv.mergeFile (h : s.Inv) {m : Merging} (hc : Intended (.mergeFile m) s)
    (hs : s.step (.mergeFile m) = some s') : s'.Inv := by
  simp only [step] at hs
  split at hs
  · rename_i filename rest hplace
    have hp := h.placed
    simp only [Placed, hplace] at hp
    obtain ⟨hround, done, todo, htaken, hrest, hne, hdat⟩ := hp
    cases todo with
    | nil => exact absurd rfl hne
    | cons f todo =>
    obtain ⟨rfl, rfl⟩ := List.cons.inj hrest
    have hcontent : s.contentOf f.1 = some f.2 :=
      (contentOf_eq_some h.nodup).mpr (hround.there f (by rw [htaken]; simp))
    cases hok : (Reflect.mergeFile m f.2 (s.datOutput s.mergeOutputFile)).1 with
    | false =>
        rw [mergeNext_eq hcontent, hok] at hs
        cases hs
        exact h.idle rfl rfl (.inr (.inr rfl))
    | true =>
        have hout := mergeFile_merged hc hdat hok
        rw [mergeNext_eq hcontent, hok] at hs
        cases hs
        refine ⟨h.nodup, h.calls, ?_⟩
        cases todo with
        | nil =>
            refine ⟨hround.congr rfl rfl hround.there, ?_⟩
            show Function.update s.datOutput s.mergeOutputFile _ s.mergeOutputFile =
              some (merged s.taken)
            rw [Function.update_self, htaken]
            exact hout
        | cons g todo =>
            refine ⟨hround.congr rfl rfl hround.there, done ++ [f], g :: todo, ?_, rfl, by simp, ?_⟩
            · rw [htaken]
              simp
            · show Function.update s.datOutput s.mergeOutputFile _ s.mergeOutputFile = _
              rw [Function.update_self, if_neg (by simp)]
              exact hout
  · cases hs

/-- The script is given the merged file. -/
theorem Inv.callOcReflection (h : s.Inv) {success : Bool}
    (hs : s.step (.callOcReflection success) = some s') : s'.Inv := by
  simp only [step] at hs
  split at hs
  · rename_i hplace
    have hp := h.placed
    simp only [Placed, hplace] at hp
    obtain ⟨hround, hdat⟩ := hp
    cases hs
    refine ⟨h.nodup, ?_, ?_⟩
    · intro c hc
      rcases List.mem_append.mp hc with hc | hc
      · exact h.calls c hc
      · obtain rfl := List.mem_singleton.mp hc
        exact ⟨hdat, hround.ordered⟩
    · cases success with
      | false => trivial
      | true =>
          refine ⟨⟨_, List.mem_append_right _ (List.mem_singleton.mpr rfl), rfl, rfl⟩, [], s.taken,
            rfl, hround.names.symm, hround.congr rfl rfl hround.there⟩
  · cases hs

theorem moveCsv_eq {filename content : Str} (h : s.contentOf filename = some content) :
    s.moveCsv filename =
      { s with
        csvInput := s.csvInput.filter fun f => f.1 ≠ filename
        csvBackup := Function.update s.csvBackup filename (some content) } := by
  simp only [moveCsv, h]

/-- A file the next one of the round is not stays where it is. -/
theorem mem_moveCsv {f g : Str × Str} (hne : g.1 ≠ f.1) (hg : g ∈ s.csvInput) :
    g ∈ (s.moveCsv f.1).csvInput := by
  unfold moveCsv
  split
  · exact hg
  · exact List.mem_filter.mpr ⟨hg, by simpa using hne⟩

/-- A move changes only the directories. -/
theorem moveCsv_frame (s : Reflector) (filename : Str) :
    (s.moveCsv filename).csvInput.Sublist s.csvInput ∧ (s.moveCsv filename).calls = s.calls ∧
      (s.moveCsv filename).taken = s.taken ∧
      (s.moveCsv filename).csvInputFiles = s.csvInputFiles := by
  unfold moveCsv
  split
  · exact ⟨.refl _, rfl, rfl, rfl⟩
  · exact ⟨List.filter_sublist, rfl, rfl, rfl⟩

/-- The next file of the round is moved, or not. -/
theorem Inv.mvCsv (h : s.Inv) {result : MvResult} (hs : s.step (.mvCsv result) = some s') :
    s'.Inv := by
  simp only [step] at hs
  split at hs
  · rename_i filename rest hplace
    have hp := h.placed
    simp only [Placed, hplace] at hp
    obtain ⟨hrefl, gone, todo, htaken, hrest, hround⟩ := hp
    cases todo with
    | nil => cases hrest
    | cons f todo =>
    obtain ⟨rfl, rfl⟩ := List.cons.inj hrest
    -- the files after the next one have other names, and stay
    have hnames : ∀ g ∈ todo, g.1 ≠ f.1 := by
      have hnodup := hround.nodup
      rw [htaken, List.map_append, List.nodup_append] at hnodup
      intro g hg heq
      exact (List.nodup_cons.mp hnodup.2.1).1 (heq ▸ List.mem_map_of_mem hg)
    obtain ⟨hsub, hcalls, htaken', hfiles⟩ := s.moveCsv_frame f.1
    cases result with
    | failure moved =>
        cases moved with
        | false =>
            cases hs
            exact h.idle rfl rfl (.inr (.inr rfl))
        | true =>
            cases hs
            exact ⟨h.nodup.sublist (hsub.map _), hcalls ▸ h.calls, trivial⟩
    | success =>
        cases hs
        refine ⟨h.nodup.sublist (hsub.map _), hcalls ▸ h.calls, ?_⟩
        cases todo with
        | nil => trivial
        | cons g todo =>
            refine ⟨?_, gone ++ [f], g :: todo, ?_, rfl, ?_⟩
            · obtain ⟨c, hc, hsucc, hfiles⟩ := hrefl
              exact ⟨c, hcalls ▸ hc, hsucc, hfiles.trans htaken'.symm⟩
            · exact htaken'.trans (by rw [htaken]; simp)
            · exact hround.congr htaken' hfiles fun g' hg' =>
                mem_moveCsv (hnames g' hg') (hround.there g' (List.mem_cons_of_mem _ hg'))
  · cases hs

theorem moveMerged_frame (s : Reflector) :
    s.moveMerged.csvInput = s.csvInput ∧ s.moveMerged.calls = s.calls := by
  unfold moveMerged
  split <;> exact ⟨rfl, rfl⟩

/-- **The invariant survives every intended step.** -/
theorem Inv.step (h : s.Inv) {a : Act} (hc : Intended a s) (hs : s.step a = some s') : s'.Inv := by
  cases a with
  | arrive filename content => exact h.arrive hs
  | poll opened missed => exact h.poll hs
  | makeMergeFileName occurTime => exact h.makeMergeFileName hc hs
  | mergeFile m => exact h.mergeFile hc hs
  | callOcReflection success => exact h.callOcReflection hs
  | mvCsv result => exact h.mvCsv hs
  | start =>
      simp only [Reflector.step] at hs
      split at hs
      · cases hs
        exact h.idle rfl rfl (.inr (.inl rfl))
      · cases hs
  | userStop =>
      simp only [Reflector.step] at hs
      split at hs
      · cases hs
        exact h.idle rfl rfl (.inl rfl)
      · cases hs
  | killed written =>
      simp only [Reflector.step] at hs
      split at hs
      · cases hs
      · split at hs
        · cases hs
          exact h.idle rfl rfl (.inl rfl)
        · cases hs
          exact h.idle (s.mergeNext_frame _ _).1 (s.mergeNext_frame _ _).2 (.inl rfl)
      · cases hs
        exact h.idle rfl rfl (.inl rfl)
  | mvMerged result =>
      simp only [Reflector.step] at hs
      split at hs
      · have hframe := s.moveMerged_frame
        cases result with
        | success =>
            cases hs
            exact h.idle hframe.1 hframe.2 (.inr (.inl rfl))
        | failure moved =>
            cases moved with
            | true =>
                cases hs
                exact h.idle hframe.1 hframe.2 (.inr (.inr rfl))
            | false =>
                cases hs
                exact h.idle rfl rfl (.inr (.inr rfl))
      · cases hs
  | deleteMergedFile success =>
      simp only [Reflector.step] at hs
      split at hs
      · cases hs
        exact h.idle rfl rfl (.inl rfl)
      · cases hs

/-- Only a move of a result file takes a file out of the input directory. -/
theorem step_input {a : Act} (ha : ∀ result, a ≠ .mvCsv result) (hs : s.step a = some s')
    {f : Str × Str} (hf : f ∈ s.csvInput) : f ∈ s'.csvInput := by
  cases a with
  | mvCsv result => exact absurd rfl (ha result)
  | arrive filename content =>
      simp only [step] at hs
      split at hs
      · cases hs
      · cases hs
        exact List.mem_append_left _ hf
  | mergeFile m =>
      simp only [step] at hs
      split at hs
      · cases hs
        rw [(s.mergeNext_frame _ _).1]
        exact hf
      · cases hs
  | killed written =>
      simp only [step] at hs
      split at hs
      · cases hs
      · split at hs
        · cases hs
          exact hf
        · cases hs
          rw [(s.mergeNext_frame _ _).1]
          exact hf
      · cases hs
        exact hf
  | mvMerged result =>
      simp only [step] at hs
      split at hs
      · cases hs
        show f ∈ (if result.moves then s.moveMerged else s).csvInput
        split
        · rw [s.moveMerged_frame.1]
          exact hf
        · exact hf
      · cases hs
  | poll opened missed =>
      simp only [step] at hs
      split at hs
      · split at hs <;> cases hs <;> exact hf
      · cases hs
  | _ =>
      simp only [step] at hs
      split at hs <;> cases hs
      exact hf

/-- **A file that leaves the input directory** is in the backup directory, and the script has
returned success on its round. -/
theorem Inv.leaves (h : s.Inv) {a : Act} (hs : s.step a = some s') {f : Str × Str}
    (hf : f ∈ s.csvInput) (hf' : f ∉ s'.csvInput) :
    s'.csvBackup f.1 = some f.2 ∧ ∃ c ∈ s.calls, c.success = true ∧ f ∈ c.files := by
  by_cases ha : ∀ result, a ≠ .mvCsv result
  · exact absurd (step_input ha hs hf) hf'
  obtain ⟨result, rfl⟩ : ∃ result, a = .mvCsv result := by simpa using ha
  simp only [Reflector.step] at hs
  split at hs
  · rename_i filename rest hplace
    have hp := h.placed
    simp only [Placed, hplace] at hp
    obtain ⟨⟨c, hc, hsucc, hfiles⟩, gone, todo, htaken, hrest, hround⟩ := hp
    cases todo with
    | nil => cases hrest
    | cons g todo =>
    obtain ⟨rfl, rfl⟩ := List.cons.inj hrest
    have hcontent := (contentOf_eq_some h.nodup).mpr (hround.there g (by simp))
    by_cases hmoves : result.moves = true
    · -- only the next file of the round is gone
      simp only [hmoves, if_true] at hs
      cases hs
      rw [moveCsv_eq hcontent] at hf' ⊢
      have hname : f.1 = g.1 := by
        by_contra hne
        exact hf' (List.mem_filter.mpr ⟨hf, by simpa using hne⟩)
      have hfg := List.inj_on_of_nodup_map h.nodup hf (hround.there g (by simp)) hname
      subst hfg
      refine ⟨Function.update_self .., c, hc, hsucc, ?_⟩
      rw [hfiles, htaken]
      simp
    · simp only [hmoves] at hs
      cases hs
      exact absurd hf hf'
  · cases hs

end

end Reflector

/-- **No result file is lost**, in a run in which each merged file gets a name no file of the
output directory has, and what `close` flushes reaches it: the script is given the contents of
exactly the files of its round, in the order of their names, and a file leaves the input directory
only for the backup directory and after the script has returned success on a file that contains
it.  The other calls may fail, and the process may end, anywhere. -/
theorem reflecting_keeps {s : Reflector} (h : reflecting.Reach Intended s) :
    (∀ c ∈ s.calls, c.Exact) ∧
      ∀ a s', s.step a = some s' → ∀ f ∈ s.csvInput, f ∉ s'.csvInput →
        s'.csvBackup f.1 = some f.2 ∧ ∃ c ∈ s.calls, c.success = true ∧ f ∈ c.files ∧
          ∃ given, c.given = some given ∧ f.2 <:+: given := by
  have hinv : s.Inv := h.invariant
    (fun s ⟨hplace, hcalls, hnodup⟩ =>
      ⟨hnodup, by simp [hcalls], by simp [Reflector.Placed, hplace]⟩)
    fun a s s' hs hc hstep => hs.step hc hstep
  refine ⟨hinv.calls, fun a s' hstep f hf hf' => ?_⟩
  obtain ⟨hbackup, c, hc, hsucc, hmem⟩ := hinv.leaves hstep hf hf'
  refine ⟨hbackup, c, hc, hsucc, hmem, _, (hinv.calls c hc).1, ?_⟩
  obtain ⟨before, after, hsplit⟩ := List.append_of_mem hmem
  refine ⟨merged before, merged after, ?_⟩
  rw [hsplit, merged_append]
  simp [merged]

/-- A round of two files, up to the move of the first of them. -/
def round : List Act :=
  [.arrive (lit "realwork_2.csv") (lit "B,1\n"), .start,
    .arrive (lit "realwork_1.csv") (lit "A,1\n"),
    .poll true [], .makeMergeFileName (lit "3"), .mergeFile {},
    .arrive (lit "realwork_3.csv") (lit "C,1\n"), .mergeFile {}, .callOcReflection true]

theorem reflecting_keeps_round :
    ∃ s s', reflecting.Reach Intended s ∧ s.step (.mvCsv .success) = some s' ∧
      s'.csvBackup (lit "realwork_1.csv") = some (lit "A,1\n") ∧
      ∃ c ∈ s.calls, c.given = some (merged c.files) := by
  let s : Reflector := (reflecting.exec round {}).getD {}
  let s' : Reflector := (s.step (.mvCsv .success)).getD {}
  have hexec : reflecting.exec round {} = some s := by rfl
  have hs : reflecting.Reach Intended s :=
    .of_exec (.start ⟨rfl, rfl, by simp⟩) (by decide +kernel) hexec
  have hstep : s.step (.mvCsv .success) = some s' := by rfl
  have h := reflecting_keeps hs
  obtain ⟨hbackup, c, hc, -⟩ := h.2 _ s' hstep (lit "realwork_1.csv", lit "A,1\n")
    (by decide +kernel) (by decide +kernel)
  exact ⟨s, s', hs, hstep, hbackup, c, hc, (h.1 c hc).1⟩

/-- The output file system is full: what `close` flushes does not reach the merged file, and
`MergeFile` returns success.  The script is given an empty file, and the result file is moved. -/
theorem reflecting_loses_unflushed :
    ∃ s s', reflecting.Reach Machine.always s ∧ s.step (.mvCsv .success) = some s' ∧
      ∃ f ∈ s.csvInput, f ∉ s'.csvInput ∧ ∀ c ∈ s.calls, c.given = some [] ∧ f.2 ≠ [] := by
  let run : List Act :=
    [.arrive (lit "realwork_1.csv") (lit "A,1\n"), .start, .poll true [],
      .makeMergeFileName (lit "2"), .mergeFile { closing := some 0 }, .callOcReflection true]
  let s : Reflector := (reflecting.exec run {}).getD {}
  let s' : Reflector := (s.step (.mvCsv .success)).getD {}
  refine ⟨s, s', .of_exec (.start ⟨rfl, rfl, by simp⟩) (reflecting.meets_always run {}) (by rfl),
    by rfl, (lit "realwork_1.csv", lit "A,1\n"), ?_⟩
  decide +kernel

/-- A merged file that could not be deleted is there again when the clock has stepped back: the
script is given its content with that of the next round. -/
theorem reflecting_repeats_stale :
    ∃ s, reflecting.Reach Machine.always s ∧
      ∃ c ∈ s.calls, c.files = [(lit "realwork_1.csv", lit "A,1\n")] ∧
        c.given = some (lit "A,1\nA,1\n") := by
  let run : List Act :=
    [.arrive (lit "realwork_1.csv") (lit "A,1\n"), .start, .poll true [],
      .makeMergeFileName (lit "2"), .mergeFile {}, .callOcReflection false,
      .deleteMergedFile false, .start, .poll true [], .makeMergeFileName (lit "2"), .mergeFile {},
      .callOcReflection true]
  let s : Reflector := (reflecting.exec run {}).getD {}
  refine ⟨s, .of_exec (.start ⟨rfl, rfl, by simp⟩) (reflecting.meets_always run {}) (by rfl), ?_⟩
  decide +kernel

end Realwork.Reflect
