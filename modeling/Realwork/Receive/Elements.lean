import Mathlib.Data.List.Forall2
import Realwork.Receive.SaxXml

/-!
# Receive — the elements a record is made of

The elements of an `equipInfo` leave the map with its record, and those of the head of a
`koujitInfo` stay there (`GET_HEAD_FROM_MAP` does not remove them).  So a `koujitInfo` that lacks
one of them finds that of an earlier `koujitInfo`.

* `ran_message`: what the handler makes of a message, up to the first `equipInfo` that is
  refused.
* `ownElements_iff`: when every record is made of its own elements.
-/

namespace Realwork.Receive

/-! ### Messages -/

/-- The elements that hold other elements; the text between these is not read. -/
def containers : List Str := [lit "message", lit "koujitInfo", lit "equipInfo"]

/-- The elements of the head of a `koujitInfo`, and the members of `WRecord` for them. -/
def koujitMembers : List (Str × (WRecord → Str)) :=
  [ (lit "regkubun", WRecord.regkubun), (lit "cmngno", WRecord.cmngno),
    (lit "constnm", WRecord.constnm), (lit "equipCount", WRecord.equipCount) ]

/-- The elements of an `equipInfo`, and the members of `WRecord` for them. -/
def equipMembers : List (Str × (WRecord → Str)) :=
  [ (lit "kono", WRecord.kono), (lit "buil_nm", WRecord.buil_nm),
    (lit "kaitei_nm", WRecord.kaitei_nm), (lit "sdate", WRecord.sdate),
    (lit "edate", WRecord.edate), (lit "jsdate", WRecord.jsdate),
    (lit "jedate", WRecord.jedate), (lit "ope_kd_flg", WRecord.ope_kd_flg),
    (lit "neid", WRecord.neid), (lit "sub_neid", WRecord.sub_neid) ]

/-- The calls for an element: the text before it, its start, what it holds, the text after that
and its end.  The parser may hand over a text in pieces. -/
def elementEvents (gap : List Str) (name : Str) (content : List Sax) (last : List Str) : List Sax :=
  gap.map .characters ++ .startElement name ::
    (content ++ (last.map .characters ++ [.endElement name]))

/-- An element that holds a text. -/
structure Leaf where
  gap : List Str
  name : Str
  chunks : List Str

def Leaf.value (l : Leaf) : Str := l.chunks.flatten

def Leaf.events (l : Leaf) : List Sax := elementEvents l.gap l.name [] l.chunks

/-- The text of the last element of a name. -/
def valueIn (leaves : List Leaf) (name : Str) : Option Str :=
  (leaves.reverse.find? (·.name = name)).map Leaf.value

/-- An `equipInfo`.  Any of its elements may be missing. -/
structure EquipInfo where
  gap : List Str
  leaves : List Leaf
  last : List Str
  named : ∀ l ∈ leaves, l.name ∉ containers ∧ l.name ∉ elements headFields

def EquipInfo.events (e : EquipInfo) : List Sax :=
  elementEvents e.gap (lit "equipInfo") (e.leaves.flatMap Leaf.events) e.last

/-- A `koujitInfo`: its head, of which any element may be missing, then its `equipInfo`s. -/
structure KoujitInfo where
  gap : List Str
  leaves : List Leaf
  equipInfos : List EquipInfo
  last : List Str
  named : ∀ l ∈ leaves, l.name ∉ containers ∧ l.name ∉ elements recordFields

def KoujitInfo.names (k : KoujitInfo) : List Str := k.leaves.map Leaf.name

def KoujitInfo.events (k : KoujitInfo) : List Sax :=
  elementEvents k.gap (lit "koujitInfo")
    (k.leaves.flatMap Leaf.events ++ k.equipInfos.flatMap EquipInfo.events) k.last

/-- What a message holds: `messageType`, `koujitCount` and the like, and `koujitInfo`s. -/
inductive Item where
  | leaf (l : Leaf) (named : l.name ∉ containers ∧ l.name ∉ elements recordFields ∧
      l.name ∉ koujitMembers.map Prod.fst)
  | koujitInfo (k : KoujitInfo)

def Item.events : Item → List Sax
  | .leaf l _ => l.events
  | .koujitInfo k => k.events

structure WorkMessage where
  items : List Item
  last : List Str

def WorkMessage.events (m : WorkMessage) : List Sax :=
  elementEvents [] (lit "message") (m.items.flatMap Item.events) m.last

/-- An `equipInfo` in its `koujitInfo`, and the elements of heads that are closed before it. -/
structure Place where
  seen : List Str
  koujitInfo : KoujitInfo
  equipInfo : EquipInfo

def placesFrom : List Str → List Item → List Place
  | _, [] => []
  | seen, .leaf l _ :: items => placesFrom (seen ++ [l.name]) items
  | seen, .koujitInfo k :: items =>
      k.equipInfos.map (fun e => ⟨seen ++ k.names, k, e⟩) ++ placesFrom (seen ++ k.names) items

/-- The `equipInfo`s of a message, in order. -/
def WorkMessage.places (m : WorkMessage) : List Place := placesFrom [] m.items

/-- The `koujitInfo` has the four elements of its head. -/
def HasHead (k : KoujitInfo) : Prop := ∀ x ∈ koujitMembers, (valueIn k.leaves x.1).isSome

/-- The `equipInfo` has its ten elements. -/
def HasDetails (e : EquipInfo) : Prop := ∀ x ∈ equipMembers, (valueIn e.leaves x.1).isSome

/-- The record has the values of its own `koujitInfo` and `equipInfo`. -/
structure Own (p : Place) (r : WRecord) : Prop where
  head : ∀ x ∈ koujitMembers, valueIn p.koujitInfo.leaves x.1 = some (x.2 r)
  details : ∀ x ∈ equipMembers, valueIn p.equipInfo.leaves x.1 = some (x.2 r)

/-- The handler where it stops: at the end, or where it raises. -/
def WSax2Handler.stopped (h : WSax2Handler) : List Sax → WSax2Handler
  | [] => h
  | e :: events =>
      match h.event e with
      | .ok h' => h'.stopped events
      | .error _ => h

/-- The records put into the list are made of their own elements, and a message that lacks one
of these is refused for a missing tag. -/
structure OwnElements (m : WorkMessage) : Prop where
  records : List.Forall₂ Own
    (m.places.take (WSax2Handler.stopped {} m.events).tmpRecordList.length)
    (WSax2Handler.stopped {} m.events).tmpRecordList
  refused : ∀ p ∈ m.places, ¬ (HasHead p.koujitInfo ∧ HasDetails p.equipInfo) →
    ∃ element, WSax2Handler.run {} m.events = .error (missingTag element)

/-- The handler finds the tags of an `equipInfo`: its own, and those of the heads so far. -/
structure Served (p : Place) : Prop where
  head : ∀ f ∈ headFields, f.element ∈ p.seen
  details : HasDetails p.equipInfo

/-- The record has the values of its own `equipInfo`, and of its own `koujitInfo` those that are
there. -/
structure Taken (p : Place) (r : WRecord) : Prop where
  head : ∀ x ∈ koujitMembers, ∀ value,
    valueIn p.koujitInfo.leaves x.1 = some value → x.2 r = value
  details : ∀ x ∈ equipMembers, valueIn p.equipInfo.leaves x.1 = some (x.2 r)

theorem Taken.own_iff {p : Place} {r : WRecord} (h : Taken p r) :
    Own p r ↔ HasHead p.koujitInfo := by
  constructor
  · intro hown x hx
    rw [hown.head x hx]
    rfl
  · intro hhead
    refine ⟨fun x hx => ?_, h.details⟩
    obtain ⟨value, hvalue⟩ := Option.isSome_iff_exists.mp (hhead x hx)
    rw [hvalue, h.head x hx value hvalue]

/-! ### Leaves -/

theorem valueIn_cons (l : Leaf) (leaves : List Leaf) (name : Str) :
    valueIn (l :: leaves) name =
      (valueIn leaves name).or (if l.name = name then some l.value else none) := by
  unfold valueIn
  rw [List.reverse_cons, List.find?_append]
  cases leaves.reverse.find? (·.name = name) with
  | some l' => rfl
  | none =>
      by_cases hname : l.name = name <;> simp [hname]

theorem valueIn_isSome {leaves : List Leaf} {name : Str} :
    (valueIn leaves name).isSome ↔ name ∈ leaves.map Leaf.name := by
  induction leaves with
  | nil => simp [valueIn]
  | cons l leaves ih =>
      rw [valueIn_cons, Option.isSome_or, Bool.or_eq_true, ih, List.map_cons, List.mem_cons]
      by_cases hname : l.name = name
      · simp [hname]
      · simp [hname, Ne.symm hname]

/-- The map after some leaves. -/
def put (m : RecordMap) (leaves : List Leaf) : RecordMap :=
  fun name => (valueIn leaves name).or (m name)

theorem put_cons (m : RecordMap) (l : Leaf) (leaves : List Leaf) :
    put m (l :: leaves) = put (Function.update m l.name (some l.value)) leaves := by
  funext name
  simp only [put, valueIn_cons, Option.or_assoc]
  by_cases hname : l.name = name
  · subst hname
    simp
  · rw [Function.update_of_ne (Ne.symm hname)]
    simp [hname]

theorem put_of_not_mem {m : RecordMap} {leaves : List Leaf} {name : Str}
    (h : name ∉ leaves.map Leaf.name) : put m leaves name = m name := by
  have hnone : valueIn leaves name = none := by
    rw [← Option.not_isSome_iff_eq_none, valueIn_isSome]
    exact h
  rw [put, hnone, Option.none_or]

theorem put_of_none {m : RecordMap} {leaves : List Leaf} {name : Str} (h : m name = none) :
    put m leaves name = valueIn leaves name := by
  rw [put, h, Option.or_none]

/-! ### The macros -/

/-- Putting a value into a member shows there and nowhere else. -/
def ReadsBack (fields : List Field) (x : Str × (WRecord → Str)) : Prop :=
  ∀ f ∈ fields, ∀ r value, x.2 (f.set r value) = if f.element = x.1 then value else x.2 r

/-- **The uses of a macro**, by induction on them: a member has what was looked up for its
element, and one without a use is unchanged. -/
theorem Looks.value {σ : Type} {use : σ → Field → Except Str σ} {rec : σ → WRecord}
    {look : σ → RecordMap} (hl : Looks use rec look) {x : Str × (WRecord → Str)}
    {fields : List Field} (hx : ReadsBack fields x) (hnodup : (elements fields).Nodup) {s s' : σ}
    (h : fields.foldlM use s = .ok s') :
    (x.1 ∈ elements fields → look s x.1 = some (x.2 (rec s'))) ∧
      (x.1 ∉ elements fields → x.2 (rec s') = x.2 (rec s)) := by
  induction fields generalizing s with
  | nil => cases h; exact ⟨fun hx => absurd hx List.not_mem_nil, fun _ => rfl⟩
  | cons f fields ih =>
      obtain ⟨hnew, hnodup⟩ := List.nodup_cons.mp hnodup
      obtain ⟨s₁, hf, h⟩ := foldlM_cons_ok.mp h
      obtain ⟨value, hlook, hrec, hother⟩ := hl.of_ok hf
      obtain ⟨hin, hout⟩ := ih (fun g hg => hx g (List.mem_cons_of_mem f hg)) hnodup h
      have hset := hx f List.mem_cons_self (rec s) value
      by_cases he : f.element = x.1
      · rw [hout (he ▸ hnew), hrec, hset, if_pos he, ← he]
        exact ⟨fun _ => hlook, fun hnot => absurd List.mem_cons_self hnot⟩
      · refine ⟨fun hmem => ?_, fun hnot => ?_⟩
        · rcases List.mem_cons.mp hmem with h | h
          · exact absurd h.symm he
          · rw [← hother x.1 (Ne.symm he)]
            exact hin h
        · rw [hout fun h => hnot (List.mem_cons_of_mem _ h), hrec, hset, if_neg he]

/-- A macro raises for a missing tag only. -/
theorem Looks.of_error {σ : Type} {use : σ → Field → Except Str σ} {rec : σ → WRecord}
    {look : σ → RecordMap} (hl : Looks use rec look) {fields : List Field} {s : σ} {e : Str}
    (h : fields.foldlM use s = .error e) : ∃ element, e = missingTag element := by
  induction fields generalizing s with
  | nil => cases h
  | cons f fields ih =>
      rw [List.foldlM_cons] at h
      cases hm : look s f.element with
      | none =>
          rw [hl.error s f hm] at h
          cases h
          exact ⟨f.element, rfl⟩
      | some value =>
          obtain ⟨s₁, hs₁, -⟩ := hl.ok s f value hm
          rw [hs₁] at h
          exact ih h

theorem koujitMembers_read : ∀ x ∈ koujitMembers,
    ReadsBack headFields x ∧ ReadsBack recordFields x := by
  simp only [koujitMembers, headFields, recordFields, ReadsBack, List.forall_mem_cons]
  simp [lit]

theorem equipMembers_read : ∀ x ∈ equipMembers, ReadsBack recordFields x := by
  simp only [equipMembers, recordFields, ReadsBack, List.forall_mem_cons]
  simp [lit]

theorem koujitMembers_element : ∀ x ∈ koujitMembers,
    x.1 ∈ elements headFields ∧ x.1 ∉ elements recordFields := by decide

theorem equipMembers_element : ∀ x ∈ equipMembers, x.1 ∈ elements recordFields := by decide

/-- **A record** has what the map has for its elements. -/
theorem constructRecord_values {m : RecordMap} {s : WRecord × RecordMap}
    (h : constructRecord m = .ok s) :
    (∀ x ∈ koujitMembers, m x.1 = some (x.2 s.1)) ∧
      ∀ x ∈ equipMembers, m x.1 = some (x.2 s.1) := by
  obtain ⟨r, hr, hs⟩ := constructRecord_ok.mp h
  constructor
  · intro x hx
    obtain ⟨hheads, hrecords⟩ := koujitMembers_read x hx
    obtain ⟨hin, hout⟩ := koujitMembers_element x hx
    have hkept : x.2 s.1 = x.2 r := (looks_record.value hrecords (by decide) hs).2 hout
    rw [hkept]
    exact ((looks_head m).value hheads (by decide) hr).1 hin
  · intro x hx
    exact (looks_record.value (equipMembers_read x hx) (by decide) hs).1
      (equipMembers_element x hx)

/-- Nothing but a missing tag keeps a record from being made. -/
theorem constructRecord_error {m : RecordMap} {e : Str} (h : constructRecord m = .error e) :
    ∃ element, e = missingTag element := by
  unfold constructRecord at h
  cases hr : headFields.foldlM (getHeadFromMap m) {} with
  | error e' =>
      rw [hr] at h
      cases h
      exact (looks_head m).of_error hr
  | ok r =>
      rw [hr] at h
      exact looks_record.of_error h

/-! ### The handler -/

namespace WSax2Handler

variable {h : WSax2Handler}

/-- Text is not read here. -/
def Ignores (h : WSax2Handler) : Prop := h.isOpen = false ∨ h.curElement ∈ containers

theorem run_text (hi : Ignores h) (texts : List Str) : h.run (texts.map .characters) = .ok h := by
  induction texts with
  | nil => rfl
  | cons text texts ih =>
      have hsame : h.characters text = h := by
        unfold characters
        rw [if_neg]
        rintro ⟨hopen, hmessage, hkoujit, hequip⟩
        rcases hi with hclosed | hmem
        · rw [hclosed] at hopen
          cases hopen
        · simp [containers, hmessage, hkoujit, hequip] at hmem
      rw [List.map_cons, run_cons, event, hsame]
      exact ih

/-- **The text of a leaf** is put together of its pieces. -/
theorem run_chunks (hopen : h.isOpen) (hname : h.curElement ∉ containers) (chunks : List Str) :
    h.run (chunks.map .characters) = .ok { h with curValue := h.curValue ++ chunks.flatten } := by
  induction chunks generalizing h with
  | nil => simp [run, pure, Except.pure]
  | cons chunk chunks ih =>
      have hread : h.characters chunk = { h with curValue := h.curValue ++ chunk } := by
        simp only [containers, List.mem_cons, List.not_mem_nil, or_false, not_or] at hname
        unfold characters
        rw [if_pos ⟨hopen, hname.1, hname.2.1, hname.2.2⟩]
      rw [List.map_cons, run_cons, event, hread]
      simpa [Except.bind] using ih (h := { h with curValue := h.curValue ++ chunk }) hopen hname

/-- **A leaf** puts its value into the map. -/
theorem run_leaf (hi : Ignores h) {l : Leaf} (hname : l.name ∉ containers) :
    h.run l.events = .ok { h with
      isOpen := false
      curElement := l.name
      curValue := l.value
      curRecord := Function.update h.curRecord l.name (some l.value) } := by
  have hequip : l.name ≠ lit "equipInfo" := by
    intro heq
    rw [heq] at hname
    exact hname (by decide)
  rw [Leaf.events, elementEvents, run_append, run_text hi]
  simp only [Except.bind, run_cons, event, List.nil_append, run_append]
  rw [run_chunks rfl hname]
  simp [endElement, hequip, startElement, run, Leaf.value, pure, Except.pure]

theorem run_leaves (hi : Ignores h) {leaves : List Leaf}
    (hname : ∀ l ∈ leaves, l.name ∉ containers) :
    ∃ h', h.run (leaves.flatMap Leaf.events) = .ok h' ∧ Ignores h' ∧
      h'.curRecord = put h.curRecord leaves ∧ h'.tmpRecordList = h.tmpRecordList := by
  induction leaves generalizing h with
  | nil => exact ⟨h, rfl, hi, by funext name; simp [put, valueIn], rfl⟩
  | cons l leaves ih =>
      rw [List.forall_mem_cons] at hname
      rw [List.flatMap_cons, run_append, run_leaf hi hname.1]
      obtain ⟨h', hrun, hi', hmap, hlist⟩ := ih (h := { h with
        isOpen := false
        curElement := l.name
        curValue := l.value
        curRecord := Function.update h.curRecord l.name (some l.value) }) (Or.inl rfl) hname.2
      exact ⟨h', hrun, hi', hmap.trans (put_cons h.curRecord l leaves).symm, hlist⟩

/-! ### Where the handler stops -/

theorem stopped_append_ok {events : List Sax} {h' : WSax2Handler} (hrun : h.run events = .ok h')
    (later : List Sax) : h.stopped (events ++ later) = h'.stopped later := by
  induction events generalizing h with
  | nil => cases hrun; rfl
  | cons e events ih =>
      rw [run_cons] at hrun
      rw [List.cons_append, stopped]
      cases he : h.event e with
      | error m => rw [he] at hrun; cases hrun
      | ok h₁ =>
          rw [he] at hrun
          exact ih hrun

theorem stopped_of_run {events : List Sax} {h' : WSax2Handler} (hrun : h.run events = .ok h') :
    h.stopped events = h' := by
  simpa [stopped] using stopped_append_ok hrun []

theorem stopped_append_error {events : List Sax} {m : Str} (hrun : h.run events = .error m)
    (later : List Sax) : h.stopped (events ++ later) = h.stopped events := by
  induction events generalizing h with
  | nil => cases hrun
  | cons e events ih =>
      rw [run_cons] at hrun
      rw [List.cons_append, stopped, stopped]
      cases he : h.event e with
      | error m' => rfl
      | ok h₁ =>
          rw [he] at hrun
          exact ih hrun

/-- A document in which an `equipInfo` may be refused: `places` are its `equipInfo`s, and `Q` holds
of the handler if it gets to the end. -/
inductive Ran (h : WSax2Handler) (events : List Sax) (places : List Place)
    (Q : WSax2Handler → Prop) : Prop where
  | through (h' : WSax2Handler) (rs : List WRecord) (hrun : h.run events = .ok h')
      (hserved : ∀ p ∈ places, Served p) (htaken : List.Forall₂ Taken places rs)
      (hlist : h'.tmpRecordList = h.tmpRecordList ++ rs) (hpost : Q h')
  | refused (done : List Place) (p : Place) (rest : List Place) (rs : List WRecord) (element : Str)
      (hplaces : places = done ++ p :: rest) (hserved : ∀ q ∈ done, Served q)
      (hmissing : ¬ Served p) (htaken : List.Forall₂ Taken done rs)
      (hrun : h.run events = .error (missingTag element))
      (hlist : (h.stopped events).tmpRecordList = h.tmpRecordList ++ rs)

variable {events later : List Sax} {places morePlaces : List Place} {Q Q' : WSax2Handler → Prop}

theorem Ran.of_run {h' : WSax2Handler} (hrun : h.run events = .ok h')
    (hlist : h'.tmpRecordList = h.tmpRecordList) (hpost : Q h') : Ran h events [] Q :=
  .through h' [] hrun (fun p hp => absurd hp List.not_mem_nil) .nil (by simp [hlist]) hpost

/-- One piece of a document, then the next. -/
theorem Ran.append (hran : Ran h events places Q)
    (hnext : ∀ h', Q h' → Ran h' later morePlaces Q') :
    Ran h (events ++ later) (places ++ morePlaces) Q' := by
  cases hran with
  | refused done p rest rs element hplaces hserved hmissing htaken hrun hlist =>
      refine .refused done p (rest ++ morePlaces) rs element (by rw [hplaces]; simp) hserved
        hmissing htaken ?_ (by rw [stopped_append_error hrun, hlist])
      rw [run_append, hrun]
      rfl
  | through h₁ rs hrun hserved htaken hlist hpost =>
      have hrest : h.run (events ++ later) = h₁.run later := by
        rw [run_append, hrun]
        rfl
      cases hnext h₁ hpost with
      | through h' rs' hrun' hserved' htaken' hlist' hpost' =>
          refine .through h' (rs ++ rs') (hrest.trans hrun') (fun p hp => ?_)
            (List.rel_append htaken htaken') (by rw [hlist', hlist, List.append_assoc]) hpost'
          rcases List.mem_append.mp hp with hp | hp
          · exact hserved p hp
          · exact hserved' p hp
      | refused done p rest rs' element hplaces hserved' hmissing htaken' hrun' hlist' =>
          refine .refused (places ++ done) p rest (rs ++ rs') element (by rw [hplaces]; simp)
            (fun q hq => ?_) hmissing (List.rel_append htaken htaken') (hrest.trans hrun')
            (by rw [stopped_append_ok hrun, hlist', hlist, List.append_assoc])
          rcases List.mem_append.mp hq with hq | hq
          · exact hserved q hq
          · exact hserved' q hq

theorem Ran.mono (hran : Ran h events places Q) (himp : ∀ h', Q h' → Q' h') :
    Ran h events places Q' := by
  cases hran with
  | through h' rs hrun hserved htaken hlist hpost =>
      exact .through h' rs hrun hserved htaken hlist (himp h' hpost)
  | refused done p rest rs element hplaces hserved hmissing htaken hrun hlist =>
      exact .refused done p rest rs element hplaces hserved hmissing htaken hrun hlist

/-! ### The map between elements -/

/-- Outside of an `equipInfo` the map has the elements of the heads so far, and none of an
`equipInfo`. -/
structure AtRest (seen : List Str) (h : WSax2Handler) : Prop where
  ignores : Ignores h
  head : ∀ e ∈ elements headFields, ((h.curRecord e).isSome ↔ e ∈ seen)
  details : ∀ e ∈ elements recordFields, h.curRecord e = none

/-- In a `koujitInfo`, the elements it has itself are those in the map. -/
structure Within (seen : List Str) (k : KoujitInfo) (h : WSax2Handler) : Prop
    extends AtRest seen h where
  own : ∀ x ∈ koujitMembers, ∀ value,
    valueIn k.leaves x.1 = some value → h.curRecord x.1 = some value

variable {seen : List Str} {k : KoujitInfo}

theorem AtRest.leaves (hrest : AtRest seen h) {leaves : List Leaf}
    (hname : ∀ l ∈ leaves, l.name ∉ containers ∧ l.name ∉ elements recordFields) :
    ∃ h', h.run (leaves.flatMap Leaf.events) = .ok h' ∧
      AtRest (seen ++ leaves.map Leaf.name) h' ∧ h'.curRecord = put h.curRecord leaves ∧
      h'.tmpRecordList = h.tmpRecordList := by
  obtain ⟨h', hrun, hi, hmap, hlist⟩ := run_leaves hrest.ignores fun l hl => (hname l hl).1
  refine ⟨h', hrun, ⟨hi, fun e he => ?_, fun e he => ?_⟩, hmap, hlist⟩
  · rw [hmap, put, Option.isSome_or, Bool.or_eq_true, valueIn_isSome, hrest.head e he,
      List.mem_append, or_comm]
  · have hnot : e ∉ leaves.map Leaf.name := by
      intro hmem
      obtain ⟨l, hl, rfl⟩ := List.mem_map.mp hmem
      exact (hname l hl).2 he
    rw [hmap, put_of_not_mem hnot, hrest.details e he]

/-- Before the end of an `equipInfo` the map has the heads from before it. -/
theorem put_head {m : RecordMap} (e : EquipInfo) {name : Str}
    (hname : name ∈ elements headFields) : put m e.leaves name = m name := by
  refine put_of_not_mem fun hmem => ?_
  obtain ⟨l, hl, rfl⟩ := List.mem_map.mp hmem
  exact (e.named l hl).2 hname

/-- Before the end of an `equipInfo` the map has its elements, and of no other. -/
theorem AtRest.put_details (hrest : AtRest seen h) (e : EquipInfo) {name : Str}
    (hname : name ∈ elements recordFields) :
    put h.curRecord e.leaves name = valueIn e.leaves name :=
  put_of_none (hrest.details name hname)

theorem hasDetails_iff {e : EquipInfo} :
    HasDetails e ↔ ∀ name ∈ elements recordFields, (valueIn e.leaves name).isSome := by
  have hsame : elements recordFields = equipMembers.map Prod.fst := by decide
  rw [hsame, List.forall_mem_map]
  rfl

/-- **A record can be made** of an `equipInfo` that is served. -/
theorem AtRest.served_iff (hrest : AtRest seen h) (k : KoujitInfo) (e : EquipInfo) :
    (∃ s, constructRecord (put h.curRecord e.leaves) = .ok s) ↔ Served ⟨seen, k, e⟩ := by
  have hheads : (∀ f ∈ headFields, (put h.curRecord e.leaves f.element).isSome) ↔
      ∀ f ∈ headFields, f.element ∈ seen := by
    refine forall₂_congr fun f hf => ?_
    have hmem : f.element ∈ elements headFields := List.mem_map_of_mem hf
    rw [put_head e hmem, hrest.head f.element hmem]
  have hdetails : (∀ f ∈ recordFields, (put h.curRecord e.leaves f.element).isSome) ↔
      HasDetails e := by
    rw [hasDetails_iff, elements, List.forall_mem_map]
    refine forall₂_congr fun f hf => ?_
    rw [hrest.put_details e (List.mem_map_of_mem hf)]
  rw [constructRecord_ok_iff, hheads, hdetails]
  exact ⟨fun h => ⟨h.1, h.2⟩, fun h => ⟨h.head, h.details⟩⟩

/-- **The record that is made** is taken from the place. -/
theorem Within.taken (hw : Within seen k h) {e : EquipInfo} {s : WRecord × RecordMap}
    (hs : constructRecord (put h.curRecord e.leaves) = .ok s) : Taken ⟨seen, k, e⟩ s.1 := by
  obtain ⟨hheads, hdetails⟩ := constructRecord_values hs
  constructor
  · intro x hx value hvalue
    have hmap := hheads x hx
    rw [put_head e (koujitMembers_element x hx).1, hw.own x hx value hvalue] at hmap
    exact (Option.some.inj hmap).symm
  · intro x hx
    rw [← hdetails x hx, hw.put_details e (equipMembers_element x hx)]

/-- The elements of the `equipInfo` leave the map with the record. -/
theorem Within.next (hw : Within seen k h) {e : EquipInfo} {s : WRecord × RecordMap}
    (hs : constructRecord (put h.curRecord e.leaves) = .ok s) {h' : WSax2Handler}
    (hopen : h'.isOpen = false) (hmap : h'.curRecord = s.2) : Within seen k h' := by
  obtain ⟨r, -, hs⟩ := constructRecord_ok.mp hs
  have hleft := getRecords_result hs
  have hheads : ∀ name ∈ elements headFields, h'.curRecord name = h.curRecord name := by
    intro name hname
    have hother : name ∉ elements recordFields := by
      revert name
      decide
    rw [hmap, hleft, if_neg hother]
    exact put_head e hname
  refine ⟨⟨Or.inl hopen, fun name hname => ?_, fun name hname => ?_⟩, fun x hx value hvalue => ?_⟩
  · rw [hheads name hname]
    exact hw.head name hname
  · rw [hmap, hleft, if_pos hname]
  · rw [hheads x.1 (koujitMembers_element x hx).1]
    exact hw.own x hx value hvalue

/-- **The end of an `equipInfo`**: a record is made, or the message refused. -/
theorem Within.ran_end (hw : Within seen k h) (e : EquipInfo) {h₁ : WSax2Handler}
    (hmap : h₁.curRecord = put h.curRecord e.leaves) :
    Ran h₁ [.endElement (lit "equipInfo")] [⟨seen, k, e⟩] (Within seen k) := by
  have hserved := hw.served_iff k e
  have hend := endElement_equipInfo h₁
  rw [hmap] at hend
  have hrun : h₁.run [.endElement (lit "equipInfo")] = h₁.endElement (lit "equipInfo") := by
    rw [run_cons, event]
    cases h₁.endElement (lit "equipInfo") <;> rfl
  cases hs : constructRecord (put h.curRecord e.leaves) with
  | ok s =>
      rw [hs] at hend
      refine .through _ [s.1] (hrun.trans hend) ?_ (.cons (hw.taken hs) .nil) rfl
        (hw.next hs rfl rfl)
      intro p hp
      rw [List.mem_singleton.mp hp]
      exact hserved.mp ⟨s, hs⟩
  | error m =>
      rw [hs] at hend
      obtain ⟨element, rfl⟩ := constructRecord_error hs
      refine .refused [] _ [] [] element rfl (fun q hq => absurd hq List.not_mem_nil) ?_ .nil
        (hrun.trans hend) ?_
      · intro h
        obtain ⟨s, hok⟩ := hserved.mpr h
        rw [hs] at hok
        cases hok
      · rw [stopped, event, hend]
        simp [Except.map]

/-! ### Elements that hold others -/

/-- The start of such an element changes neither the map nor the list. -/
theorem run_start (hi : Ignores h) (gap : List Str) (name : Str) (rest : List Sax) :
    h.run (gap.map .characters ++ .startElement name :: rest) = (h.startElement name).run rest := by
  rw [run_append, run_text hi]
  rfl

theorem ignores_start (h : WSax2Handler) {name : Str} (hname : name ∈ containers) :
    Ignores (h.startElement name) :=
  Or.inr hname

theorem AtRest.start (hrest : AtRest seen h) {name : Str} (hname : name ∈ containers) :
    AtRest seen (h.startElement name) :=
  ⟨ignores_start h hname, hrest.head, hrest.details⟩

/-- The end of an element that is no `equipInfo` puts into the map what no record takes. -/
theorem AtRest.ran_end (hrest : AtRest seen h) {name : Str} (hname : name ∈ containers)
    (hequip : name ≠ lit "equipInfo") : Ran h [.endElement name] [] (AtRest seen) := by
  have hother : ∀ e ∈ elements headFields ++ elements recordFields,
      Function.update h.curRecord name (some h.curValue) e = h.curRecord e := by
    intro e he
    refine Function.update_of_ne ?_ _ _
    rintro rfl
    revert hname
    revert e
    decide
  have hend : h.run [.endElement name] = .ok { h with
      isOpen := false
      curElement := name
      curRecord := Function.update h.curRecord name (some h.curValue) } := by
    rw [run_cons, event, endElement, if_neg hequip]
    rfl
  refine .of_run hend rfl ⟨Or.inl rfl, fun e he => ?_, fun e he => ?_⟩
  · simp only [hother e (List.mem_append_left _ he)]
    exact hrest.head e he
  · simp only [hother e (List.mem_append_right _ he)]
    exact hrest.details e he

/-- **An `equipInfo`.** -/
theorem Within.ran_equipInfo (hw : Within seen k h) (e : EquipInfo) :
    Ran h e.events [⟨seen, k, e⟩] (Within seen k) := by
  have hstart : Ignores (h.startElement (lit "equipInfo")) := ignores_start h (by decide)
  obtain ⟨h₁, hrun, hi, hmap, hlist⟩ := run_leaves hstart fun l hl => (e.named l hl).1
  have hbefore : h.run (e.gap.map .characters ++ .startElement (lit "equipInfo") ::
      (e.leaves.flatMap Leaf.events ++ e.last.map .characters)) = .ok h₁ := by
    rw [run_start hw.ignores, run_append, hrun]
    exact run_text hi e.last
  have hran : Ran h _ [] (· = h₁) := .of_run hbefore hlist rfl
  have hevents : e.events = e.gap.map .characters ++ .startElement (lit "equipInfo") ::
      (e.leaves.flatMap Leaf.events ++ e.last.map .characters) ++
        [.endElement (lit "equipInfo")] := by
    simp [EquipInfo.events, elementEvents]
  rw [hevents]
  refine hran.append ?_
  rintro h' rfl
  exact hw.ran_end e hmap

/-- The `equipInfo`s of a `koujitInfo`, by induction on them. -/
theorem Within.ran_equipInfos (hw : Within seen k h) (es : List EquipInfo) :
    Ran h (es.flatMap EquipInfo.events) (es.map fun e => ⟨seen, k, e⟩) (Within seen k) := by
  induction es generalizing h with
  | nil => exact .of_run rfl rfl hw
  | cons e es ih => exact (hw.ran_equipInfo e).append fun h' hw' => ih hw'

/-- The head of a `koujitInfo`. -/
theorem AtRest.ran_head (hrest : AtRest seen h) (k : KoujitInfo) :
    Ran h (k.leaves.flatMap Leaf.events) [] (Within (seen ++ k.names) k) := by
  obtain ⟨h', hrun, hrest', hmap, hlist⟩ := hrest.leaves k.named
  refine .of_run hrun hlist ⟨hrest', fun x hx value hvalue => ?_⟩
  rw [hmap, put, hvalue]
  rfl

/-- **A `koujitInfo`.** -/
theorem AtRest.ran_koujitInfo (hrest : AtRest seen h) (k : KoujitInfo) :
    Ran h k.events (k.equipInfos.map fun e => ⟨seen ++ k.names, k, e⟩)
      (AtRest (seen ++ k.names)) := by
  have hstart : Ran h (k.gap.map .characters ++ [.startElement (lit "koujitInfo")]) []
      (AtRest seen) :=
    .of_run (run_start hrest.ignores k.gap _ []) rfl (hrest.start (by decide))
  have hlast : ∀ h', Within (seen ++ k.names) k h' →
      Ran h' (k.last.map .characters ++ [.endElement (lit "koujitInfo")]) []
        (AtRest (seen ++ k.names)) := by
    intro h' hw
    have htext : Ran h' (k.last.map .characters) [] (AtRest (seen ++ k.names)) :=
      .of_run (run_text hw.ignores k.last) rfl hw.toAtRest
    exact htext.append fun h'' hrest' => hrest'.ran_end (by decide) (by decide)
  have hran := ((hstart.append fun h' hrest' => hrest'.ran_head k).append fun h' hw =>
    hw.ran_equipInfos k.equipInfos).append hlast
  simpa [KoujitInfo.events, elementEvents] using hran

/-- **What a message holds**, by induction on its items. -/
theorem AtRest.ran_items (hrest : AtRest seen h) (items : List Item) :
    Ran h (items.flatMap Item.events) (placesFrom seen items) fun h' =>
      ∃ seen, AtRest seen h' := by
  induction items generalizing h seen with
  | nil => exact .of_run rfl rfl ⟨seen, hrest⟩
  | cons item items ih =>
      cases item with
      | leaf l named =>
          have hname : ∀ l' ∈ [l], l'.name ∉ containers ∧ l'.name ∉ elements recordFields := by
            intro l' hl
            rw [List.mem_singleton.mp hl]
            exact ⟨named.1, named.2.1⟩
          obtain ⟨h', hrun, hrest', -, hlist⟩ := hrest.leaves hname
          rw [List.flatMap_singleton] at hrun
          exact (Ran.of_run hrun hlist hrest').append fun h'' hrest'' => ih hrest''
      | koujitInfo k =>
          exact (hrest.ran_koujitInfo k).append fun h' hrest' => ih hrest'

theorem atRest_start : AtRest [] {} :=
  ⟨Or.inl rfl, fun e _ => by simp, fun e _ => rfl⟩

end WSax2Handler

open WSax2Handler

/-- **A message.**  The handler makes a record of every `equipInfo` up to the first that is not
served, and that one is refused. -/
theorem ran_message (m : WorkMessage) : Ran {} m.events m.places fun _ => True := by
  have hstart : Ran {} [.startElement (lit "message")] [] (AtRest []) :=
    .of_run rfl rfl (atRest_start.start (by decide))
  have hlast : ∀ h', (∃ seen, AtRest seen h') →
      Ran h' (m.last.map .characters ++ [.endElement (lit "message")]) [] fun _ => True := by
    rintro h' ⟨seen, hrest⟩
    have htext : Ran h' (m.last.map .characters) [] (AtRest seen) :=
      .of_run (run_text hrest.ignores m.last) rfl hrest
    exact (htext.append fun h'' hrest' => hrest'.ran_end (by decide) (by decide)).mono
      fun _ _ => trivial
  have hran := (hstart.append fun h' hrest => hrest.ran_items m.items).append hlast
  simpa [WorkMessage.events, WorkMessage.places, elementEvents] using hran

/-! ### Own elements -/

instance (e : EquipInfo) : Decidable (HasDetails e) :=
  inferInstanceAs (Decidable (∀ x ∈ equipMembers, _))

instance (p : Place) : Decidable (Served p) :=
  decidable_of_iff ((∀ f ∈ headFields, ∃ name ∈ p.seen, name = f.element) ∧
      HasDetails p.equipInfo) <| by
    simp only [exists_eq_right]
    exact ⟨fun h => ⟨h.1, h.2⟩, fun h => ⟨h.head, h.details⟩⟩

/-- The `equipInfo`s before the first that is not served. -/
def WorkMessage.served (m : WorkMessage) : List Place := m.places.takeWhile fun p => Served p

theorem forall₂_own_iff {places : List Place} {rs : List WRecord}
    (h : List.Forall₂ Taken places rs) :
    List.Forall₂ Own places rs ↔ ∀ p ∈ places, HasHead p.koujitInfo := by
  induction h with
  | nil => simp
  | cons htaken _ ih => rw [List.forall₂_cons, ih, htaken.own_iff, List.forall_mem_cons]

/-- The records are those of the `equipInfo`s that are served, and after another the handler
stops for a missing tag. -/
theorem ran_served (m : WorkMessage) :
    List.Forall₂ Taken m.served (stopped {} m.events).tmpRecordList ∧
      m.places.take (stopped {} m.events).tmpRecordList.length = m.served ∧
      (m.served = m.places ∨ ∃ element, run {} m.events = .error (missingTag element)) := by
  have hran := ran_message m
  cases hran with
  | through h' rs hrun hserved htaken hlist _ =>
      have hall : m.served = m.places := by
        rw [WorkMessage.served, List.takeWhile_eq_self_iff]
        intro p hp
        simpa using hserved p hp
      rw [stopped_of_run hrun, hlist, List.nil_append, hall, ← htaken.length_eq]
      exact ⟨htaken, List.take_length, Or.inl rfl⟩
  | refused done p rest rs element hplaces hserved hmissing htaken hrun hlist =>
      have hdone : m.served = done := by
        rw [WorkMessage.served, hplaces, List.takeWhile_append_of_pos]
        · simp [hmissing]
        · intro q hq
          simpa using hserved q hq
      rw [hlist, List.nil_append, hdone, ← htaken.length_eq, hplaces]
      exact ⟨htaken, List.take_left, Or.inr ⟨element, hrun⟩⟩

/-- **Record fields come from their own elements** if and only if every `equipInfo` that is
served stands in a `koujitInfo` with all of its head. -/
theorem ownElements_iff (m : WorkMessage) :
    OwnElements m ↔ ∀ p ∈ m.served, HasHead p.koujitInfo := by
  obtain ⟨htaken, htake, hend⟩ := ran_served m
  constructor
  · intro hown
    have hrecords := hown.records
    rw [htake] at hrecords
    exact (forall₂_own_iff htaken).mp hrecords
  · intro hheads
    refine ⟨?_, fun p hp hlacks => ?_⟩
    · rw [htake]
      exact (forall₂_own_iff htaken).mpr hheads
    · rcases hend with hall | herror
      · -- no `equipInfo` is refused, so this one lacks nothing
        rw [← hall] at hp
        have hserved : Served p := by simpa using List.mem_takeWhile_imp hp
        exact absurd ⟨hheads p hp, hserved.details⟩ hlacks
      · exact herror

/-- An `equipInfo` with all of its elements. -/
def plainEquipInfo : EquipInfo where
  gap := []
  leaves := equipMembers.map fun x => ⟨[], x.1, [lit "1"]⟩
  last := []
  named := by decide

/-- Two constructions, the second without a name. -/
def staleMessage : WorkMessage where
  items := [
    .leaf ⟨[], lit "messageType", [lit "1"]⟩ (by decide),
    .leaf ⟨[], lit "koujitCount", [lit "2"]⟩ (by decide),
    .koujitInfo ⟨[], [⟨[], lit "regkubun", [lit "1"]⟩, ⟨[], lit "cmngno", [lit "C1"]⟩,
      ⟨[], lit "constnm", [lit "A"]⟩, ⟨[], lit "equipCount", [lit "1"]⟩], [plainEquipInfo], [],
      by decide⟩,
    .koujitInfo ⟨[], [⟨[], lit "regkubun", [lit "1"]⟩, ⟨[], lit "cmngno", [lit "C2"]⟩,
      ⟨[], lit "equipCount", [lit "1"]⟩], [plainEquipInfo], [], by decide⟩]
  last := []

/-- The second construction is recorded under the name of the first. -/
theorem ownElements_stale :
    (stopped {} staleMessage.events).tmpRecordList.map (fun r => (r.cmngno, r.constnm)) =
      [(lit "C1", lit "A"), (lit "C2", lit "A")] ∧ ¬ OwnElements staleMessage := by
  refine ⟨by decide +kernel, fun hown => ?_⟩
  have hlacks : ∃ p ∈ staleMessage.places,
      (valueIn p.koujitInfo.leaves (lit "constnm")).isSome = false := by decide +kernel
  obtain ⟨p, hp, hnone⟩ := hlacks
  obtain ⟨element, herror⟩ := hown.refused p hp fun h => by
    have hsome := h.1 (lit "constnm", WRecord.constnm) (by simp [koujitMembers])
    rw [hnone] at hsome
    cases hsome
  have hok : (run {} staleMessage.events).isOk = true := by decide +kernel
  rw [herror] at hok
  cases hok

end Realwork.Receive
