import Realwork.Lib.Greedy
import Realwork.Lib.Once
import Realwork.Reflect.ControlTime

/-!
# Reflect — which operation contexts are summarized

`ReadOCConfFile`, `GetOCName` and `WriteSummarizeFcl` of `update_control_time.pl`: the operation
contexts of the area and the MMS of a managed object are summarized for it.

* `writeSummarizeFcl_once`: whatever the two files are, a context is summarized for an object once,
  and it is if the context has the area or the MMS of the first line of that object.
-/

namespace Realwork.Reflect

open Realwork.Lib

/-! ### The script -/

/-- `$oc_conf_hash`: the contexts of an item. -/
abbrev OcConfHash := Str → Option (List Str)

/-- `push( @{ $oc_conf_hash->{$item} }, $oc_name )`. -/
def OcConfHash.push (hash : OcConfHash) (item ocName : Str) : OcConfHash :=
  match hash item with
  | some oldOcList => Function.update hash item (some (oldOcList ++ [ocName]))
  | none => Function.update hash item (some [ocName])

/-- `=(.+)` -/
def equalsAfter : Str → Option Str
  | 0x3d :: b :: value => some (b :: value)
  | _ => none

/-- `/(.+)=(.+)/`. -/
def confLineOf : Str → Option (Str × Str)
  | [] => none
  | b :: s => (cutLast equalsAfter s).map fun found => (b :: found.1, found.2)

/-- The items of a value, without their blanks. -/
def itemsOf (value : Str) : List Str := (splitFields 0x2c value).map fun item =>
  item.filter (· ≠ 0x20)

/-- The body of the loop of `ReadOCConfFile`. -/
def readOCConfLine (hash : OcConfHash) (l : Str) : OcConfHash :=
  if isComment l || isNull l then hash
  else
    match confLineOf l with
    | none => hash
    | some (ocName, value) => (itemsOf value).foldl (fun hash item => hash.push item ocName) hash

/-- `ReadOCConfFile`. -/
def readOCConfFile (content : Str) : OcConfHash :=
  (fileLines content).foldl readOCConfLine fun _ => none

/-- `GetOCName`. -/
def getOCName (hash : OcConfHash) (area mms : Str) : List Str :=
  let ocList := match hash area with
    | some list => list
    | none => []
  let ocList := match hash mms with
    | some list => ocList ++ list
    | none => ocList
  ocList.foldl addOnce []

/-- `$$set[0]->{areaCode}` and `$$set[0]->{mmsCode}`. -/
def codesOf (set : List WorkRecord) : Str × Str :=
  ((set.head?.bind WorkRecord.areaCode).getD [], (set.head?.bind WorkRecord.mmsCode).getD [])

/-- The contexts and objects of `WriteSummarizeFcl`; `mos` is the order of `keys`. -/
def summarized (conf : OcConfHash) (hash : WorkHash) (mos : List Str) : List (Str × Str) :=
  mos.flatMap fun mo =>
    let codes := codesOf ((hash mo).getD [])
    (getOCName conf codes.1 codes.2).map fun o => (o, mo)

def summarizeCommand (o mo : Str) : Str :=
  lit "summarize oper " ++ o ++ lit " alarm * managed object=\x7b NW_OPS * " ++ mo ++
    lit " \x7d, what=\x7b 111,10021,10018,10035,10000,10009,10011,10034,10003,9,4 \x7d" ++
    lit ", state=\x7b Outstanding,Acknowledged \x7d\n"

/-- `WriteSummarizeFcl`. -/
def writeSummarizeFcl (conf : OcConfHash) (hash : WorkHash) (mos : List Str) : Str :=
  (summarized conf hash mos).flatMap fun command => summarizeCommand command.1 command.2

/-! ### The files -/

/-- The lines of a file that are read. -/
def readLines (content : Str) : List Str :=
  (fileLines content).filter fun l => !(isComment l || isNull l)

/-- The line gives the context `ocName` the item. -/
def Gives (ocName item l : Str) : Prop :=
  ∃ value, confLineOf l = some (ocName, value) ∧ item ∈ itemsOf value

instance Gives.decidable (ocName item l : Str) : Decidable (Gives ocName item l) :=
  decidable_of_iff ((confLineOf l).any fun line =>
      decide (line.1 = ocName) && (itemsOf line.2).any fun x => decide (x = item)) <| by
    rw [Gives, Option.any_eq_true]
    constructor
    · rintro ⟨line, hline, h⟩
      rw [Bool.and_eq_true, decide_eq_true_iff, List.any_eq_true] at h
      obtain ⟨x, hx, hitem⟩ := h.2
      exact ⟨line.2, by rw [hline, ← h.1], of_decide_eq_true hitem ▸ hx⟩
    · rintro ⟨value, hline, hitem⟩
      have hany : ((itemsOf value).any fun x => decide (x = item)) = true :=
        List.any_eq_true.2 ⟨item, hitem, decide_eq_true rfl⟩
      exact ⟨(ocName, value), hline, by rw [hany, decide_eq_true rfl, Bool.and_true]⟩

/-- The fields of a line of the work output file. -/
def fieldsOf (l : Str) : List Str := (splitFields 0x2c l).map (stripBy isspace)

/-- The managed object of a line. -/
def moOf (l : Str) : Str := (getMO (fieldsOf l)).1

/-- The items of the area and of the MMS of a line. -/
def areaItem (l : Str) : Str := lit "98" ++ (fieldsOf l).getD 9 []

def mmsItem (l : Str) : Str := lit "99" ++ (getMO (fieldsOf l)).2

/-! ### The configuration -/

section

variable {conf : OcConfHash} {ocName item : Str}

theorem mem_push {item' ocName' : Str} :
    ocName ∈ ((conf.push item' ocName') item).getD [] ↔
      ocName ∈ (conf item).getD [] ∨ item' = item ∧ ocName' = ocName := by
  have hpush : conf.push item' ocName' =
      Function.update conf item' (some ((conf item').getD [] ++ [ocName'])) := by
    rw [OcConfHash.push]
    cases conf item' <;> rfl
  rw [hpush]
  by_cases hitem : item' = item
  · subst hitem
    rw [Function.update_self, Option.getD_some, List.mem_append, List.mem_singleton]
    simp [eq_comm]
  · rw [Function.update_of_ne (Ne.symm hitem)]
    simp [hitem]

theorem mem_readOCConfLine {l : Str} :
    ocName ∈ ((readOCConfLine conf l) item).getD [] ↔
      ocName ∈ (conf item).getD [] ∨
        (isComment l || isNull l) = false ∧ Gives ocName item l := by
  have hitems (name : Str) (items : List Str) :
      ocName ∈ ((items.foldl (fun hash item => OcConfHash.push hash item name) conf) item).getD [] ↔
        ocName ∈ (conf item).getD [] ∨ item ∈ items ∧ name = ocName := by
    induction items generalizing conf with
    | nil => simp
    | cons item' items ih =>
        rw [List.foldl_cons, ih, mem_push, List.mem_cons, or_assoc, ← or_and_right,
          eq_comm (b := item)]
  rw [readOCConfLine]
  split
  · rename_i hskip
    simp [hskip]
  · rename_i hread
    rw [Bool.not_eq_true] at hread
    rw [Gives]
    cases hline : confLineOf l with
    | none => simp
    | some line =>
        obtain ⟨name, value⟩ := line
        refine (hitems name (itemsOf value)).trans (or_congr_right ?_)
        simp [hread, and_comm]

/-- **The contexts of an item** are those that a line gives it. -/
theorem mem_readOCConfFile {content : Str} :
    ocName ∈ ((readOCConfFile content) item).getD [] ↔
      ∃ l ∈ readLines content, Gives ocName item l := by
  have hlines (conf : OcConfHash) (ls : List Str) :
      ocName ∈ ((ls.foldl readOCConfLine conf) item).getD [] ↔ ocName ∈ (conf item).getD [] ∨
        ∃ l ∈ ls.filter fun l => !(isComment l || isNull l), Gives ocName item l := by
    induction ls generalizing conf with
    | nil => simp
    | cons l ls ih =>
        rw [List.foldl_cons, ih, mem_readOCConfLine, or_assoc, List.filter_cons]
        refine or_congr_right ?_
        cases hskip : isComment l || isNull l with
        | true => simp
        | false => simp
  rw [readOCConfFile, hlines]
  simp [readLines]

theorem mem_getOCName {area mms : Str} :
    ocName ∈ getOCName conf area mms ↔
      ocName ∈ (conf area).getD [] ∨ ocName ∈ (conf mms).getD [] := by
  rw [getOCName, mem_foldl_addOnce]
  cases conf area <;> cases conf mms <;> simp

theorem nodup_getOCName (area mms : Str) : (getOCName conf area mms).Nodup :=
  nodup_foldl_addOnce List.nodup_nil _

end

/-! ### The first line of an object -/

section

variable {hash : WorkHash} {mo : Str}

/-- A line adds a record to the group of its object; only the first one gives it the codes. -/
theorem readLine_codes (hne : ∀ mo, hash mo ≠ some []) {l : Str}
    (hread : (isComment l || isNull l) = false) :
    ∃ group, group ≠ [] ∧ readLine hash l = Function.update hash (moOf l) (some group) ∧
      codesOf group = ((hash (moOf l)).map codesOf).getD (areaItem l, mmsItem l) := by
  rw [readLine, hread, if_neg Bool.false_ne_true]
  cases hgroup : hash (moOf l) with
  | none =>
      have hnone : hash (getMO ((splitFields 0x2c l).map (stripBy isspace))).1 = none := hgroup
      simp only [hnone]
      exact ⟨_, List.cons_ne_nil _ _, rfl, rfl⟩
  | some group =>
      have hsome : hash (getMO ((splitFields 0x2c l).map (stripBy isspace))).1 = some group :=
        hgroup
      cases group with
      | nil => exact absurd hgroup (hne _)
      | cons work group =>
          simp only [hsome, List.cons_append]
          exact ⟨_, List.cons_ne_nil _ _, rfl, rfl⟩

/-- **The codes of an object** are those of its first line. -/
theorem codes_foldl_readLine (hne : ∀ mo, hash mo ≠ some []) (ls : List Str) :
    ((ls.foldl readLine hash) mo).map codesOf = ((hash mo).map codesOf).or
      (((ls.filter fun l => !(isComment l || isNull l)).find? fun l => moOf l = mo).map
        fun l => (areaItem l, mmsItem l)) := by
  induction ls generalizing hash with
  | nil => simp
  | cons l ls ih =>
      rw [List.foldl_cons, List.filter_cons]
      cases hskip : isComment l || isNull l with
      | true =>
          have hsame : readLine hash l = hash := by rw [readLine, hskip, if_pos rfl]
          rw [hsame, ih hne]
          rfl
      | false =>
          obtain ⟨group, hgroup, hread, hcodes⟩ := readLine_codes hne hskip
          have hne' : ∀ mo, readLine hash l mo ≠ some [] := by
            intro mo
            rw [hread]
            by_cases hmo : mo = moOf l
            · subst hmo
              simpa using hgroup
            · rw [Function.update_of_ne hmo]
              exact hne mo
          rw [ih hne', hread, Bool.not_false, if_pos rfl]
          by_cases hmo : moOf l = mo
          · subst hmo
            rw [Function.update_self, Option.map_some, hcodes, List.find?_cons_of_pos (by simp)]
            cases hash (moOf l) <;> simp
          · rw [Function.update_of_ne (Ne.symm hmo), List.find?_cons_of_neg (by simpa using hmo)]

/-- The codes of an object after the work output file was read. -/
theorem codes_readWorkOutputFile (content : Str) :
    (readWorkOutputFile (fun _ => none) content mo).map codesOf =
      ((readLines content).find? fun l => moOf l = mo).map fun l => (areaItem l, mmsItem l) := by
  rw [readWorkOutputFile, codes_foldl_readLine fun _ => Option.some_ne_none _ |>.symm]
  rfl

/-- The objects are those of the lines. -/
theorem readWorkOutputFile_ne_none_iff {content : Str} :
    readWorkOutputFile (fun _ => none) content mo ≠ none ↔
      ∃ l ∈ readLines content, moOf l = mo := by
  have hcodes := @codes_readWorkOutputFile mo content
  rw [← Option.isSome_iff_ne_none, ← Option.isSome_map (f := codesOf), hcodes, Option.isSome_map,
    List.find?_isSome]
  simp

/-- The contexts and objects, by the codes of the groups. -/
theorem mem_summarized {conf : OcConfHash} {mos : List Str} {o : Str}
    (hkeys : ∀ mo, mo ∈ mos ↔ hash mo ≠ none) :
    (o, mo) ∈ summarized conf hash mos ↔
      ∃ codes, (hash mo).map codesOf = some codes ∧ o ∈ getOCName conf codes.1 codes.2 := by
  rw [summarized, List.mem_flatMap]
  constructor
  · rintro ⟨mo', hmo', hc⟩
    obtain ⟨o', ho', heq⟩ := List.mem_map.mp hc
    cases heq
    obtain ⟨set, hset⟩ := Option.ne_none_iff_exists'.mp ((hkeys mo).mp hmo')
    rw [hset] at ho' ⊢
    exact ⟨codesOf set, rfl, ho'⟩
  · rintro ⟨codes, hcodes, ho⟩
    obtain ⟨set, hset, rfl⟩ := Option.map_eq_some_iff.mp hcodes
    refine ⟨mo, (hkeys mo).mpr (by simp [hset]), List.mem_map.mpr ⟨o, ?_, rfl⟩⟩
    rw [hset]
    exact ho

end

/-- **Each context is summarized once for each object it has.**  In whatever order the objects are
taken, no command is written twice; and there is a command for a context and an object exactly if
the configuration gives the context the area or the MMS of the first line of that object. -/
theorem writeSummarizeFcl_once (confContent workContent : Str) {mos : List Str}
    (hnodup : mos.Nodup)
    (hkeys : ∀ mo, mo ∈ mos ↔ readWorkOutputFile (fun _ => none) workContent mo ≠ none) :
    ∃ written : List (Str × Str),
      writeSummarizeFcl (readOCConfFile confContent)
          (readWorkOutputFile (fun _ => none) workContent) mos =
        written.flatMap (fun command => summarizeCommand command.1 command.2) ∧
      written.Nodup ∧
      ∀ o mo, (o, mo) ∈ written ↔
        ∃ l, ((readLines workContent).find? fun l => moOf l = mo) = some l ∧
          ∃ l' ∈ readLines confContent, Gives o (areaItem l) l' ∨ Gives o (mmsItem l) l' := by
  refine ⟨summarized (readOCConfFile confContent)
    (readWorkOutputFile (fun _ => none) workContent) mos, rfl, ?_, fun o mo => ?_⟩
  · refine List.nodup_flatMap.mpr ⟨fun mo _ => ?_, hnodup.imp fun {mo mo'} hne => ?_⟩
    · exact (nodup_getOCName _ _).map fun o o' h => congrArg Prod.fst h
    · intro c hc hc'
      obtain ⟨o, -, rfl⟩ := List.mem_map.mp hc
      obtain ⟨o', -, h⟩ := List.mem_map.mp hc'
      exact hne (congrArg Prod.snd h).symm
  · rw [mem_summarized hkeys, codes_readWorkOutputFile]
    constructor
    · rintro ⟨codes, hcodes, ho⟩
      obtain ⟨l, hl, rfl⟩ := Option.map_eq_some_iff.mp hcodes
      refine ⟨l, hl, ?_⟩
      rw [mem_getOCName, mem_readOCConfFile, mem_readOCConfFile] at ho
      rcases ho with ⟨l', hl', hgives⟩ | ⟨l', hl', hgives⟩
      · exact ⟨l', hl', .inl hgives⟩
      · exact ⟨l', hl', .inr hgives⟩
    · rintro ⟨l, hl, l', hl', hgives⟩
      refine ⟨_, by rw [hl]; rfl, ?_⟩
      rw [mem_getOCName, mem_readOCConfFile, mem_readOCConfFile]
      exact hgives.imp (fun h => ⟨l', hl', h⟩) fun h => ⟨l', hl', h⟩

/-- The line of an MMS in its area. -/
def mmsLine : Str := lit "A,1,0100020100010000000100000001,,,5,,,,01"

/-- A context that has both the area and the MMS of an object. -/
theorem writeSummarizeFcl_once_both :
    ∃ written : List (Str × Str),
      writeSummarizeFcl (readOCConfFile (lit "oc1=9801, 995\noc2=9802\n"))
          (readWorkOutputFile (fun _ => none) (line 0x0a mmsLine)) [lit "MMS 5"] =
        written.flatMap (fun command => summarizeCommand command.1 command.2) ∧
      written.Nodup ∧ (lit "oc1", lit "MMS 5") ∈ written := by
  have hlines : readLines (line 0x0a mmsLine) = [mmsLine] := by decide +kernel
  have hmo : moOf mmsLine = lit "MMS 5" := by decide +kernel
  obtain ⟨written, hwritten, hnodup, hmem⟩ := writeSummarizeFcl_once
    (lit "oc1=9801, 995\noc2=9802\n") (line 0x0a mmsLine) (List.nodup_singleton (lit "MMS 5"))
    fun mo => by
      rw [readWorkOutputFile_ne_none_iff, hlines]
      simp [hmo, eq_comm]
  refine ⟨written, hwritten, hnodup, (hmem _ _).mpr ⟨mmsLine, ?_, lit "oc1=9801, 995", ?_, ?_⟩⟩
  · rw [hlines]
    exact List.find?_cons_of_pos (by simpa using hmo)
  · decide +kernel
  · exact .inl ⟨lit "9801, 995", by decide +kernel, by decide +kernel⟩

end Realwork.Reflect
