import Realwork.Lib.Earliest
import Realwork.Receive.DBWrite
import Realwork.Reflect.ContainCstNo
import Realwork.Reflect.ControlTime

/-!
# Reflect — the control time of an alarm object

`NeedToBeUpdated` of `update_control_time.pl` moves the control time of an alarm object to the
earliest control time of the work records it is about.

* `lt_iff_digits_lt`: times in the format of `ChangeTimeFormat` are ordered as their digits are.
* `needToBeUpdated_settles`: the control time only moves earlier, to the minimum, once.
-/

namespace Realwork.Reflect

open Realwork.Lib Realwork.Receive

/-! ### The script -/

/-- The fields of `$ao` that `NeedToBeUpdated` reads. -/
structure AlarmObject where
  neType : Str
  nodeId : Str
  openCloseFlag : Str
  aoType : Str
  workFlag : Str
  pfFlag : Str
  controlTime : Str
  patternId : Str
  managedObject : Str
  deriving DecidableEq

/-- The literal ○ of the script, which is Shift_JIS text. -/
def circle : Str := [0x81, 0x9b]

/-- `IsCorelatedMO`. -/
def isCorelatedMO (ao : AlarmObject) (record : WorkRecord) : Bool :=
  let aoNodeId := ao.nodeId.filter (· ≠ 0x22)
  if record.neType = lit "000a" then
    if ao.neType = lit "000a" then decide (aoNodeId = record.nodeId)
    else if ao.neType = lit "0005" then decide (ao.openCloseFlag = record.serialNo)
    else true
  else if record.neType = lit "0005" then
    if ao.neType = lit "000a" ∨ ao.neType = lit "0005" then
      decide (ao.openCloseFlag = record.serialNo)
    else true
  else true

/-- `s/\D//g`. -/
def digitsOf (s : Str) : Str := s.filter isdigit

/-- `IsWorkControlTimeEarlier`. -/
def isWorkControlTimeEarlier (aoControlTime recordControlTime : Str) : Bool :=
  if digitsOf aoControlTime = [] then true
  else decide (digitsOf recordControlTime < digitsOf aoControlTime)

/-- `GetEarliestControlTime`. -/
def getEarliestControlTime : List Str → Str
  | [] => []
  | t :: ts => earliest t ts

/-- `&IsCorelatedMO(..) && &ContainCstNo(..)`; `none` is that the script dies. -/
def isAbout (perl : Str → Str → Option Bool) (object : AlarmObject) (record : WorkRecord) :
    Option Bool :=
  if isCorelatedMO object record then containCstNo perl object.patternId record.cstNo
  else some false

/-- The loop of `NeedToBeUpdated`: `@control_time_list`. -/
def controlTimeList (perl : Str → Str → Option Bool) (object : AlarmObject) :
    List WorkRecord → Option (List Str)
  | [] => some []
  | mo :: works => do
      let about ← isAbout perl object mo
      let times ← controlTimeList perl object works
      return if about && isWorkControlTimeEarlier object.controlTime mo.controlTime then
        mo.controlTime :: times
      else times

/-- `NeedToBeUpdated`: the object after it, and what it returns. -/
def needToBeUpdated (perl : Str → Str → Option Bool) (hash : WorkHash) (object : AlarmObject) :
    Option (AlarmObject × Bool) :=
  if object.aoType = lit "5" then some (object, false)
  else if object.workFlag ≠ circle ∧ object.pfFlag ≠ circle then some (object, false)
  else do
    let times ← controlTimeList perl object ((hash object.managedObject).getD [])
    return if times = [] then (object, false)
      else ({ object with controlTime := getEarliestControlTime times }, true)

/-! ### What it is to do -/

/-- A time in the format `ChangeTimeFormat` writes. -/
def InTimeFormat (s : Str) : Prop :=
  ∃ timestr, timestr ≠ [] ∧ (∀ b ∈ timestr, isdigit b = true) ∧ changeTimeFormat timestr = some s

/-- The record is correlated, and the pattern id contains its construction number. -/
def isMatched (perl : Str → Str → Option Bool) (object : AlarmObject) (record : WorkRecord) :
    Bool :=
  isCorelatedMO object record && containCstNo perl object.patternId record.cstNo == some true

/-- The control times of the work records that the object is about. -/
def matchedTimes (perl : Str → Str → Option Bool) (object : AlarmObject) (works : List WorkRecord) :
    List Str :=
  (works.filter (isMatched perl object)).map WorkRecord.controlTime

/-! ### Times and their digits -/

theorem append_lt_append_iff {a b x y x' y' : Str} (hlen : a.length = b.length)
    (h : x < y ↔ x' < y') : a ++ x < b ++ y ↔ a ++ x' < b ++ y' := by
  induction a generalizing b with
  | nil =>
      rw [List.eq_nil_of_length_eq_zero hlen.symm]
      exact h
  | cons c a ih =>
      cases b with
      | nil => cases hlen
      | cons d b =>
          simp only [List.cons_append, List.cons_lt_cons_iff, ih (Nat.succ.inj hlen)]

theorem digitsOf_eq_self {s : Str} (h : ∀ b ∈ s, isdigit b = true) : digitsOf s = s :=
  List.filter_eq_self.mpr h

theorem digitsOf_field {s : Str} (h : ∀ b ∈ s, isdigit b = true) {sep : UInt8}
    (hsep : isdigit sep = false) (rest : Str) :
    digitsOf (s ++ sep :: rest) = s ++ digitsOf rest := by
  rw [digitsOf, List.filter_append, List.filter_cons_of_neg (by simp [hsep])]
  exact congrArg (· ++ _) (digitsOf_eq_self h)

/-- A field of digits with its separator does not change the order of what follows. -/
theorem field_lt_iff (sep : UInt8) (hsep : isdigit sep = false) {s t : Str}
    (hs : ∀ b ∈ s, isdigit b = true) (ht : ∀ b ∈ t, isdigit b = true)
    (hlen : s.length = t.length) {x y : Str} (h : x < y ↔ digitsOf x < digitsOf y) :
    s ++ sep :: x < t ++ sep :: y ↔
      digitsOf (s ++ sep :: x) < digitsOf (t ++ sep :: y) := by
  rw [digitsOf_field hs hsep, digitsOf_field ht hsep]
  refine append_lt_append_iff hlen ?_
  rw [List.cons_lt_cons_self]
  exact h

/-- The fields of a time. -/
def part (timestr : Str) (pos n : Nat) : Str := (timestr.drop pos).take n

theorem digits_part {timestr : Str} (h : ∀ b ∈ timestr, isdigit b = true) (pos n : Nat) :
    ∀ b ∈ part timestr pos n, isdigit b = true :=
  fun b hb => h b (List.mem_of_mem_drop (List.mem_of_mem_take hb))

theorem changeTimeFormat_eq_some {timestr s : Str} (hne : timestr ≠ [])
    (h : changeTimeFormat timestr = some s) :
    12 ≤ timestr.length ∧ s = part timestr 0 4 ++ 0x2f :: (part timestr 4 2 ++ 0x2f ::
      (part timestr 6 2 ++ 0x20 :: (part timestr 8 2 ++ 0x3a :: (part timestr 10 2 ++ 0x3a ::
        part timestr 12 2)))) := by
  have hlen : 12 ≤ timestr.length := by
    by_contra hshort
    have hsec : substr timestr 12 2 = none := if_neg hshort
    simp [changeTimeFormat, hne, hsec] at h
  have hsub {pos : Nat} (n : Nat) (hpos : pos ≤ 12) :
      substr timestr pos n = some (part timestr pos n) := if_pos (hpos.trans hlen)
  rw [changeTimeFormat, if_neg hne] at h
  simp only [hsub _ (by decide : 0 ≤ 12), hsub _ (by decide : 4 ≤ 12), hsub _ (by decide : 6 ≤ 12),
    hsub _ (by decide : 8 ≤ 12), hsub _ (by decide : 10 ≤ 12), hsub _ (le_refl 12)] at h
  cases h
  exact ⟨hlen, by simp [lit]⟩

/-- **Times are ordered as their digits are.** -/
theorem lt_iff_digits_lt {s t : Str} (hs : InTimeFormat s) (ht : InTimeFormat t) :
    s < t ↔ digitsOf s < digitsOf t := by
  obtain ⟨timestr, hne, hdigits, h⟩ := hs
  obtain ⟨timestr', hne', hdigits', h'⟩ := ht
  obtain ⟨hlen, rfl⟩ := changeTimeFormat_eq_some hne h
  obtain ⟨hlen', rfl⟩ := changeTimeFormat_eq_some hne' h'
  have hpart {pos n : Nat} (hpos : pos + n ≤ 12) :
      (part timestr pos n).length = (part timestr' pos n).length := by
    simp only [part, List.length_take, List.length_drop]
    omega
  have hd := digits_part hdigits
  have hd' := digits_part hdigits'
  refine field_lt_iff 0x2f rfl (hd 0 4) (hd' 0 4) (hpart (by decide)) ?_
  refine field_lt_iff 0x2f rfl (hd 4 2) (hd' 4 2) (hpart (by decide)) ?_
  refine field_lt_iff 0x20 rfl (hd 6 2) (hd' 6 2) (hpart (by decide)) ?_
  refine field_lt_iff 0x3a rfl (hd 8 2) (hd' 8 2) (hpart (by decide)) ?_
  refine field_lt_iff 0x3a rfl (hd 10 2) (hd' 10 2) (hpart (by decide)) ?_
  rw [digitsOf_eq_self (hd 12 2), digitsOf_eq_self (hd' 12 2)]

theorem digitsOf_ne_nil {s : Str} (h : InTimeFormat s) : digitsOf s ≠ [] := by
  obtain ⟨timestr, hne, hdigits, h⟩ := h
  obtain ⟨hlen, rfl⟩ := changeTimeFormat_eq_some hne h
  rw [digitsOf_field (digits_part hdigits 0 4) rfl]
  refine List.append_ne_nil_of_left_ne_nil (List.ne_nil_of_length_pos ?_) _
  simp only [part, List.length_take, List.length_drop]
  omega

/-- Of times in the format the earlier one is found. -/
theorem isWorkControlTimeEarlier_iff {old t : Str} (hold : old = [] ∨ InTimeFormat old)
    (ht : InTimeFormat t) :
    isWorkControlTimeEarlier old t = true ↔ Before (if old = [] then none else some old) t := by
  rw [isWorkControlTimeEarlier]
  rcases hold with rfl | hold
  · exact iff_of_true rfl fun m hm => by cases hm
  · have hne : old ≠ [] := by
      rintro rfl
      exact digitsOf_ne_nil hold rfl
    rw [if_neg (digitsOf_ne_nil hold), if_neg hne, decide_eq_true_iff, ← lt_iff_digits_lt ht hold]
    simp [Before]

/-- The receiver writes only records that have an end, so the reader of a result file gets times in
the format. -/
theorem inTimeFormat_written {db xml r : RealworkRecord} {written : Str}
    (hr : cancelLine db xml = some r ∨ updateLine db xml = some r)
    (hdigits : ∀ b ∈ r.eDate, isdigit b = true) (h : csvLine r = some written) :
    InTimeFormat ((changeTimeFormat r.eDate).getD []) := by
  refine ⟨r.eDate, ?_, hdigits, (csvLine_eq h).2⟩
  rcases hr with hr | hr
  · rw [cancelLine, Option.ite_none_right_eq_some] at hr
    obtain ⟨⟨-, hs, -⟩, heq⟩ := hr
    cases heq
    exact hs
  · rw [updateLine, Option.ite_none_right_eq_some] at hr
    obtain ⟨⟨-, he, -⟩, heq⟩ := hr
    cases heq
    exact he

/-! ### The update -/

section

variable {perl : Str → Str → Option Bool} {object : AlarmObject} {works : List WorkRecord}

theorem isMatched_eq {record : WorkRecord} {about : Bool}
    (h : isAbout perl object record = some about) : isMatched perl object record = about := by
  rw [isAbout] at h
  rw [isMatched]
  cases hmo : isCorelatedMO object record with
  | false =>
      rw [hmo] at h
      exact Option.some.inj h
  | true =>
      rw [hmo, if_pos rfl] at h
      rw [h, Bool.true_and]
      cases about <;> rfl

/-- Whether the script dies does not depend on the control time of the object. -/
theorem controlTimeList_eq {times : List Str} (h : controlTimeList perl object works = some times)
    (t : Str) : controlTimeList perl { object with controlTime := t } works =
      some ((matchedTimes perl object works).filter (isWorkControlTimeEarlier t)) := by
  induction works generalizing times with
  | nil => rfl
  | cons mo works ih =>
      simp only [controlTimeList, Option.bind_eq_bind, Option.bind_eq_some_iff] at h
      obtain ⟨about, habout, rest, hrest, -⟩ := h
      have habout' : isAbout perl { object with controlTime := t } mo = some about := habout
      have hcons : matchedTimes perl object (mo :: works) =
          if about then mo.controlTime :: matchedTimes perl object works
          else matchedTimes perl object works := by
        rw [matchedTimes, List.filter_cons, isMatched_eq habout]
        cases about <;> rfl
      rw [controlTimeList, habout', ih hrest, hcons]
      cases about with
      | false => rfl
      | true =>
          rw [if_pos rfl, List.filter_cons]
          rfl

/-- The object is left alone, or moved to the earliest time of the list; then it is left alone when
its list is empty. -/
theorem needToBeUpdated_cases {hash : WorkHash} {object' : AlarmObject} {ret : Bool}
    (h : needToBeUpdated perl hash object = some (object', ret)) :
    (object' = object ∧ ret = false) ∨
      ∃ t times, controlTimeList perl object ((hash object.managedObject).getD []) =
          some (t :: times) ∧
        object' = { object with controlTime := earliest t times } ∧ ret = true ∧
        (controlTimeList perl object' ((hash object.managedObject).getD []) = some [] →
          needToBeUpdated perl hash object' = some (object', false)) := by
  rw [needToBeUpdated] at h
  by_cases hao : object.aoType = lit "5"
  · rw [if_pos hao] at h
    cases h
    exact .inl ⟨rfl, rfl⟩
  · rw [if_neg hao] at h
    by_cases hflag : object.workFlag ≠ circle ∧ object.pfFlag ≠ circle
    · rw [if_pos hflag] at h
      cases h
      exact .inl ⟨rfl, rfl⟩
    · rw [if_neg hflag, Option.bind_eq_bind, Option.bind_eq_some_iff] at h
      obtain ⟨times, htimes, h⟩ := h
      cases times with
      | nil =>
          cases h
          exact .inl ⟨rfl, rfl⟩
      | cons t times =>
          cases h
          refine .inr ⟨t, times, htimes, rfl, rfl, fun hnil => ?_⟩
          rw [needToBeUpdated, if_neg hao, if_neg hflag, hnil]
          rfl

/-- The list has the matched times that are before the control time of the object. -/
theorem mem_controlTimeList {old u : Str} (hold : old = [] ∨ InTimeFormat old)
    (hworks : ∀ record ∈ works, InTimeFormat record.controlTime) :
    u ∈ (matchedTimes perl object works).filter (isWorkControlTimeEarlier old) ↔
      u ∈ matchedTimes perl object works ∧ Before (if old = [] then none else some old) u := by
  rw [List.mem_filter]
  refine and_congr_right fun hu => isWorkControlTimeEarlier_iff hold ?_
  rw [matchedTimes, List.mem_map] at hu
  obtain ⟨record, hrecord, rfl⟩ := hu
  exact hworks record (List.mem_of_mem_filter hrecord)

/-- **The control time only moves earlier, to the minimum, once.** -/
theorem needToBeUpdated_settles {hash : WorkHash} {object' : AlarmObject} {ret : Bool}
    (hobject : object.controlTime = [] ∨ InTimeFormat object.controlTime)
    (hworks : ∀ record ∈ (hash object.managedObject).getD [], InTimeFormat record.controlTime)
    (h : needToBeUpdated perl hash object = some (object', ret)) :
    (ret = true → object' = { object with controlTime := object'.controlTime } ∧
      IsEarliest object'.controlTime
        (matchedTimes perl object ((hash object.managedObject).getD [])) ∧
      (object.controlTime ≠ [] → object'.controlTime < object.controlTime)) ∧
    (ret = false → object' = object) ∧
    needToBeUpdated perl hash object' = some (object', false) := by
  rcases needToBeUpdated_cases h with ⟨hobj, hret⟩ | ⟨t, times, htimes, rfl, rfl, hagain⟩
  · subst hobj hret
    exact ⟨fun hret => absurd hret Bool.false_ne_true, fun _ => rfl, h⟩
  · have hlist := (controlTimeList_eq htimes object.controlTime).symm.trans htimes
    obtain ⟨hearliest, hbefore⟩ := (isEarliest_earliest t times).of_before fun u => by
      rw [← Option.some.inj hlist]
      exact mem_controlTimeList hobject hworks
    have hformat : InTimeFormat (earliest t times) := by
      obtain ⟨record, hrecord, heq⟩ := List.mem_map.mp hearliest.mem
      exact heq ▸ hworks record (List.mem_of_mem_filter hrecord)
    refine ⟨fun _ => ⟨rfl, hearliest, fun hne => ?_⟩,
      fun hret => absurd hret.symm Bool.false_ne_true, hagain ?_⟩
    · rw [if_neg hne] at hbefore
      exact hbefore object.controlTime rfl
    · rw [controlTimeList_eq htimes, Option.some_inj, List.eq_nil_iff_forall_not_mem]
      intro u hu
      rw [mem_controlTimeList (.inr hformat) hworks] at hu
      have hne : earliest t times ≠ [] := by
        intro hnil
        exact digitsOf_ne_nil hformat (by rw [hnil]; rfl)
      rw [if_neg hne] at hu
      exact hearliest.not_before hu.1 hu.2

end

/-- A record of work that ended then, and an alarm object it is about. -/
def endedWork (controlTime : Str) : WorkRecord where
  cstNo := lit "A1-1"
  nodeId := lit "0100020100010000000100000001"
  controlTime
  serialNo := lit "1"
  neType := lit "0001"

def markedAlarm (controlTime : Str) : AlarmObject where
  neType := lit "0001"
  nodeId := lit "0100020100010000000100000001"
  openCloseFlag := lit "1"
  aoType := lit "1"
  workFlag := circle
  pfFlag := []
  controlTime
  patternId := lit "A1-1 A1-2"
  managedObject := lit "MMS 1"

theorem needToBeUpdated_settles_january :
    needToBeUpdated perlEngine (fun _ => some [endedWork (lit "2009/01/03 00:00:00"),
        endedWork (lit "2009/01/02 00:00:00")]) (markedAlarm (lit "2009/01/02 00:00:00")) =
      some (markedAlarm (lit "2009/01/02 00:00:00"), false) := by
  have hmoved : needToBeUpdated perlEngine (fun _ => some [endedWork (lit "2009/01/03 00:00:00"),
        endedWork (lit "2009/01/02 00:00:00")]) (markedAlarm (lit "2009/01/05 00:00:00")) =
      some (markedAlarm (lit "2009/01/02 00:00:00"), true) := by
    decide +kernel
  refine (needToBeUpdated_settles (.inr ?_) ?_ hmoved).2.2
  · exact ⟨lit "20090105000000", by decide +kernel, by decide +kernel, by decide +kernel⟩
  · refine List.forall_mem_cons.mpr ⟨?_, List.forall_mem_cons.mpr ⟨?_, by simp⟩⟩
    · exact ⟨lit "20090103000000", by decide +kernel, by decide +kernel, by decide +kernel⟩
    · exact ⟨lit "20090102000000", by decide +kernel, by decide +kernel, by decide +kernel⟩

end Realwork.Reflect
