import Realwork.Circuit.CircuitCache

/-!
# Circuit — the FFP of two transponders

`getSMTMProtectionEquipmentId` of `circuit_discovery.plsql` and what it calls.  A discovery that
comes to a transponder reports the FFP it has with another one.  Two cards of the types `SMTMP` and
`TGIMP` protect each other by their slots, and the FFP is to begin with the smaller slot from
whichever of them it is found.

* `straddles_iff`: the smallest slot is between the two slots, unless both are above it in a shelf
  of the type `HCSS`.
* `ffps_visitAll`: the FFPs of the list are those of the visits, each of them once.
* `smtmpPair_listed`: how often a discovery that comes to both cards lists their FFP.
-/

namespace Realwork.Circuit

open Lib

/-! ### The tables -/

/-- A row of `CM_CARD`; `none` is NULL. -/
structure Card where
  cardId : Nat
  neId : Nat
  aid : Str
  aidType : Str
  shelf : Option Int
  slot : Option Int
  chan : Option Int
  parentId : Option Nat

/-- A row of `CM_SHELF`. -/
structure Shelf where
  shelfId : Nat
  subtype : Str

/-- A row of `SMTM_PROTECTION_CM_VW`. -/
structure SmtmProtection where
  neId : Nat
  cardId : Nat
  otherCardAid : Str
  protScheme : Str
  workOrProt : Str

/-- A row of `CM_FACILITY`. -/
structure Facility where
  facId : Nat
  parentId : Option Nat
  portOrLine : Str

/-- A row of `CM_CHANNEL_OCH`. -/
structure Och where
  ochId : Nat
  parentId : Option Nat
  ochType : Str
  scheme : Str

/-- The tables the procedures select from, in the order of the cursors; an empty text is NULL. -/
structure CardTables extends Tables where
  cmCard : List Card
  cmShelf : List Shelf
  /-- `NE_STYPE` -/
  neStype : Nat → Str
  smtmProtection : List SmtmProtection
  cmFacility : List Facility
  cmChannelOch : List Och

/-- `LIKE` a text and a percent sign. -/
def startsWith (text s : Str) : Bool := text.isPrefixOf s

/-- `CARD_AID LIKE 'SMTMP%' OR CARD_AID LIKE 'TGIMP%'` -/
def isSmtmp (aid : Str) : Bool := startsWith (lit "SMTMP") aid || startsWith (lit "TGIMP") aid

/-- `LIKE '%_N'` -/
def isNano (stype : Str) : Bool := 2 ≤ stype.length && stype.getLast? = some 0x4e

/-! ### The procedures -/

/-- `getValidSlotPair`; NULL has no pair. -/
def getValidSlotPair (fromEqptSlot : Option Int) (stype shelfSubType : Str) : Option Int :=
  fromEqptSlot.map fun slot =>
    if shelfSubType = lit "HCSS" then
      if slot > 10 then slot - 10 else slot + 10
    else if isNano stype then
      if slot > 3 then slot - 3 else slot + 3
    else 17 - slot

/-- The shelf of a card. -/
def shelfOf (t : CardTables) (card : Card) : Option Shelf :=
  t.cmShelf.find? fun shelf => card.parentId = some shelf.shelfId

/-- The row of the first select of `getSMTMPPair`. -/
def smtmpRow (t : CardTables) (eqptId : Nat) : Option (Card × Shelf) :=
  t.cmCard.findSome? fun card =>
    if isSmtmp card.aid ∧ card.cardId = eqptId then (shelfOf t card).map (card, ·) else none

/-- `getSMTMPPair`; NULL is equal to nothing. -/
def getSMTMPPair (t : CardTables) (neId eqptId : Nat) (stype : Str) : Option Nat := do
  let (card, shelf) ← smtmpRow t eqptId
  let otherEqptSlot ← getValidSlotPair card.slot stype shelf.subtype
  let other ← t.cmCard.find? fun other =>
    other.neId = neId ∧ (other.aidType = lit "SMTMP" ∨ other.aidType = lit "TGIMP") ∧
      card.shelf.isSome ∧ other.shelf = card.shelf ∧ other.slot = some otherEqptSlot ∧
      card.chan.isSome ∧ other.chan = card.chan
  return other.cardId

/-- The row of the first select of `getSMTMFFP`: the other card, the scheme, and which card
works. -/
def smtmRow (t : CardTables) (neId cardId : Nat) : Option (Nat × Str × Str) :=
  t.smtmProtection.findSome? fun prot =>
    if prot.neId = neId ∧ prot.cardId = cardId ∧ (t.cmCard.any fun card => card.cardId = cardId) ∧
        (prot.protScheme = lit "UPSR" ∨ prot.protScheme = lit "SNCPRING" ∨
          prot.protScheme = lit "DPRING") then
      (t.cmCard.find? fun card => card.neId = neId ∧ card.aid ≠ [] ∧
        card.aid = prot.otherCardAid).map fun card =>
          (card.cardId, prot.protScheme, prot.workOrProt)
    else none

/-- `card_aid_type LIKE 'SMTM%' OR card_aid_type LIKE 'SSM_'` -/
def isSmtmType (aidType : Str) : Bool :=
  startsWith (lit "SMTM") aidType || (startsWith (lit "SSM") aidType && aidType.length = 4)

/-- The line facility of a card. -/
def lineFacility (t : CardTables) (cardId : Nat) : Option Nat :=
  if t.cmCard.any fun card => card.cardId = cardId && isSmtmType card.aidType then
    (t.cmFacility.find? fun fac => fac.parentId = some cardId ∧ fac.portOrLine = lit "Line").map
      Facility.facId
  else none

/-- The OCH-P of a card. -/
def cardOch (t : CardTables) (cardId : Nat) : Option Nat :=
  if t.cmCard.any fun card => card.cardId = cardId then
    (t.cmChannelOch.find? fun och => och.parentId = some cardId ∧
      (och.ochType = lit "P" ∨ och.ochType = lit "CP" ∨ och.ochType = lit "1")).map Och.ochId
  else none

/-- What `getSMTMFFP` reports: what works and what protects it. -/
def smtmFfp (t : CardTables) (cardId : Nat) (row : Nat × Str × Str) : Option (Nat × Nat) :=
  let working_card_id := if row.2.2 = lit "W" then cardId else row.1
  let protecting_card_id := if row.2.2 = lit "W" then row.1 else cardId
  let selected := if row.2.1 = lit "DPRING" then cardOch t else lineFacility t
  (selected working_card_id).bind fun working =>
    (selected protecting_card_id).map fun protecting => (working, protecting)

/-- `addFFPtoList` with ids that are numbers. -/
def Discovery.addFfp (t : CardTables) (neId : Nat) (ffp : Nat × Nat) (s : Discovery) :
    Option Discovery :=
  s.addFFPToList t.toTables (decimal neId) (decimal ffp.1) (decimal ffp.2)

/-- `getSMTMFFP` -/
def getSMTMFFP (t : CardTables) (neId cardId : Nat) (s : Discovery) : Option (Discovery × Bool) :=
  match smtmRow t neId cardId with
  | none => some (s, false)
  | some row =>
      match smtmFfp t cardId row with
      | none => some (s, true)
      | some ffp => (s.addFfp t neId ffp).map (·, true)

/-- The row of `getSMTMProtectionEquipmentId` for one of the two equipments. -/
def smtmCard (t : CardTables) (neId eqptId : Nat) : Option Card :=
  t.cmCard.find? fun card => card.neId = neId ∧
    (startsWith (lit "SMTM") card.aid ∨ startsWith (lit "SSM") card.aid ∨
      card.aidType = lit "TGIMP" ∨ startsWith (lit "HDTG") card.aidType) ∧ card.cardId = eqptId

/-- The equipment the procedure is about. -/
def smtmCardOf (t : CardTables) (neId fromEqptId toEqptId : Nat) : Option Card :=
  (smtmCard t neId fromEqptId).or (smtmCard t neId toEqptId)

/-- `smallestSlot` -/
def smallestSlot (stype : Str) : Int := if isNano stype then 3 else 8

/-- `eqptSlot<=smallestSlot`; it is not true of NULL. -/
def isSmallSlot (stype : Str) (eqptSlot : Option Int) : Bool :=
  eqptSlot.any fun slot => slot ≤ smallestSlot stype

/-- `getSMTMProtectionEquipmentId`; the id is 0 if the equipment is not protected. -/
def getSMTMProtectionEquipmentId (t : CardTables) (neId fromEqptId toEqptId ochpId : Nat)
    (s : Discovery) : Option (Discovery × Nat) :=
  match smtmCardOf t neId fromEqptId toEqptId with
  | none => (getSMTMFFP t neId 0 s).map fun r => (r.1, 0)
  | some card =>
      if isSmtmp card.aid then
        let stype := t.neStype neId
        match getSMTMPPair t neId card.cardId stype with
        | none => some (s, card.cardId)
        | some otherEqptId =>
            if otherEqptId = 0 then some (s, card.cardId)
            else if isSmallSlot stype card.slot then
              -- always use the smallest slot AID as the FROM
              (s.addFfp t neId (card.cardId, otherEqptId)).map (·, card.cardId)
            else (s.addFfp t neId (otherEqptId, card.cardId)).map (·, card.cardId)
      else if startsWith (lit "HDTG") card.aid then
        let stype := ((t.cmChannelOch.find? fun och => och.ochId = ochpId).map Och.scheme).getD []
        some (s, if stype ≠ [] ∧ stype ≠ lit "DPRING" then 0 else card.cardId)
      else (getSMTMFFP t neId card.cardId s).map fun r => (r.1, if r.2 then card.cardId else 0)

/-! ### Visits -/

/-- What a discovery does, as far as its FFPs are concerned. -/
inductive Visit where
  | found (f : Found)
  /-- `getSMTMProtectionEquipmentId` -/
  | smtm (neId fromEqptId toEqptId ochpId : Nat)

namespace Visit

def perform (t : CardTables) : Visit → Discovery → Option Discovery
  | found f, s => s.add t.toTables f
  | smtm neId fromEqptId toEqptId ochpId, s =>
      (getSMTMProtectionEquipmentId t neId fromEqptId toEqptId ochpId s).map Prod.fst

/-- The card a visit is about. -/
def card (t : CardTables) : Visit → Option Card
  | found _ => none
  | smtm neId fromEqptId toEqptId _ => smtmCardOf t neId fromEqptId toEqptId

/-- What `getSMTMFFP` reports of a card. -/
def smtmFfpOf (t : CardTables) (neId cardId : Nat) : Option (Nat × Nat) :=
  (smtmRow t neId cardId).bind (smtmFfp t cardId)

/-- The FFP of a card with its partner, from the smaller slot. -/
def partnerFfp (t : CardTables) (neId : Nat) (card : Card) : Option (Nat × Nat) :=
  ((getSMTMPPair t neId card.cardId (t.neStype neId)).filter (· ≠ 0)).map fun otherEqptId =>
    if isSmallSlot (t.neStype neId) card.slot then (card.cardId, otherEqptId)
    else (otherEqptId, card.cardId)

/-- The FFP a visit of a transponder reports. -/
def smtmReport (t : CardTables) (neId : Nat) : Option Card → Option (Nat × Nat)
  | none => smtmFfpOf t neId 0
  | some card =>
      if isSmtmp card.aid then partnerFfp t neId card
      else if startsWith (lit "HDTG") card.aid then none
      else smtmFfpOf t neId card.cardId

/-- What a visit reports. -/
def report (t : CardTables) (v : Visit) : Option Found :=
  match v with
  | found f => some f
  | smtm neId _ _ _ => (smtmReport t neId (v.card t)).map fun ffp =>
      .ffp (decimal neId) (decimal ffp.1) (decimal ffp.2)

/-- The text of the FFP a visit reports. -/
def ffp (t : CardTables) (v : Visit) : Option Str := (v.report t).bind Found.ffpInfo

end Visit

/-- One visit after the other. -/
def visitAll (t : CardTables) (visits : List Visit) (s : Discovery) : Option Discovery :=
  visits.foldlM (fun s v => v.perform t s) s

/-- The cards have different ids, and none is 0. -/
structure CardTables.Keys (t : CardTables) : Prop where
  cards : (t.cmCard.map Card.cardId).Nodup
  pos : ∀ card ∈ t.cmCard, card.cardId ≠ 0

/-- The two cards protect each other: from either of them `getSMTMPPair` comes to the other. -/
structure Paired (t : CardTables) (neId : Nat) (c c' : Card) : Prop where
  mem : c ∈ t.cmCard
  mem' : c' ∈ t.cmCard
  aid : isSmtmp c.aid = true
  aid' : isSmtmp c'.aid = true
  pair : getSMTMPPair t neId c.cardId (t.neStype neId) = some c'.cardId
  pair' : getSMTMPPair t neId c'.cardId (t.neStype neId) = some c.cardId

/-- `shelf_subtype` of the shelf of a card. -/
def shelfSubtype (t : CardTables) (c : Card) : Str := ((shelfOf t c).map Shelf.subtype).getD []

/-- `c` has the smaller slot. -/
def SmallerSlot (c c' : Card) : Prop := ∃ n n', c.slot = some n ∧ c'.slot = some n' ∧ n < n'

/-- The text of the FFP of two cards, from `c`. -/
def pairInfo (neId : Nat) (c c' : Card) : Str :=
  ffpInfo (decimal neId) (decimal c.cardId) (decimal c'.cardId)

/-- The entries of a list for the FFP of two cards, whichever it begins with. -/
def pairEntries (neId : Nat) (c c' : Card) (l : List Str) : List Str :=
  l.filter fun e => e = pairInfo neId c c' ∨ e = pairInfo neId c' c

section

variable {t : CardTables} {s s' : Discovery} {v : Visit}

/-! ### The slots -/

/-- The three ways a slot has its partner. -/
theorem getValidSlotPair_cases {n n' : Int} {stype subtype : Str}
    (h : getValidSlotPair (some n) stype subtype = some n') :
    subtype = lit "HCSS" ∧ (10 < n ∧ n' = n - 10 ∨ n ≤ 10 ∧ n' = n + 10) ∨
      subtype ≠ lit "HCSS" ∧ isNano stype = true ∧ (3 < n ∧ n' = n - 3 ∨ n ≤ 3 ∧ n' = n + 3) ∨
      subtype ≠ lit "HCSS" ∧ isNano stype = false ∧ n' = 17 - n := by
  simp only [getValidSlotPair, Option.map_some, Option.some.injEq] at h
  split at h
  · rename_i hshelf
    refine .inl ⟨hshelf, ?_⟩
    split at h
    · omega
    · omega
  · rename_i hshelf
    split at h
    · rename_i hnano
      refine .inr (.inl ⟨hshelf, hnano, ?_⟩)
      split at h
      · omega
      · omega
    · rename_i hnano
      exact .inr (.inr ⟨hshelf, Bool.eq_false_iff.mpr hnano, h.symm⟩)

/-- **The smallest slot is between the two slots**, unless both are above it in an HCSS shelf. -/
theorem straddles_iff {n n' : Int} {stype subtype subtype' : Str}
    (h : getValidSlotPair (some n) stype subtype = some n')
    (h' : getValidSlotPair (some n') stype subtype' = some n) :
    (isSmallSlot stype (some n) = !isSmallSlot stype (some n')) ↔
      subtype ≠ lit "HCSS" ∨ n ≤ smallestSlot stype ∨ n' ≤ smallestSlot stype := by
  have hsmall : (isSmallSlot stype (some n) = !isSmallSlot stype (some n')) ↔
      (n ≤ smallestSlot stype ↔ ¬ n' ≤ smallestSlot stype) := by
    rw [Bool.eq_iff_iff]
    simp [isSmallSlot]
  rw [hsmall, smallestSlot]
  -- a slot comes back from its partner only if both are in shelves of one kind
  have hcases := getValidSlotPair_cases h
  have hcases' := getValidSlotPair_cases h'
  grind

/-! ### What a visit reports -/

/-- A report of two ids, if there is one. -/
def reportFfp (t : CardTables) (neId : Nat) (ffp : Option (Nat × Nat)) (s : Discovery) :
    Option Discovery :=
  match ffp with
  | none => some s
  | some ffp => s.addFfp t neId ffp

theorem map_fst_pair {β : Type} (o : Option Discovery) (b : β) :
    (o.map fun s => (s, b)).map Prod.fst = o := by
  cases o <;> rfl

theorem getSMTMFFP_report (neId cardId : Nat) :
    (getSMTMFFP t neId cardId s).map Prod.fst =
      reportFfp t neId (Visit.smtmFfpOf t neId cardId) s := by
  rw [getSMTMFFP, Visit.smtmFfpOf]
  cases smtmRow t neId cardId with
  | none => rfl
  | some row =>
      simp only [Option.bind_some]
      cases smtmFfp t cardId row with
      | none => rfl
      | some ffp => exact map_fst_pair _ true

theorem getSMTMProtectionEquipmentId_report (neId fromEqptId toEqptId ochpId : Nat) :
    (getSMTMProtectionEquipmentId t neId fromEqptId toEqptId ochpId s).map Prod.fst =
      reportFfp t neId (Visit.smtmReport t neId (smtmCardOf t neId fromEqptId toEqptId)) s := by
  have hother {β : Type} (cardId : Nat) (b : Bool → β) :
      ((getSMTMFFP t neId cardId s).map fun r => (r.1, b r.2)).map Prod.fst =
        reportFfp t neId (Visit.smtmFfpOf t neId cardId) s := by
    rw [Option.map_map]
    exact getSMTMFFP_report neId cardId
  rw [getSMTMProtectionEquipmentId]
  cases smtmCardOf t neId fromEqptId toEqptId with
  | none => exact hother 0 fun _ => 0
  | some card =>
      simp only [Visit.smtmReport]
      split
      · rw [Visit.partnerFfp]
        cases getSMTMPPair t neId card.cardId (t.neStype neId) with
        | none => rfl
        | some otherEqptId =>
            by_cases hzero : otherEqptId = 0
            · subst hzero
              rfl
            · by_cases hsmall : isSmallSlot (t.neStype neId) card.slot = true
              · simp only [hzero, hsmall, if_true, if_false, Option.filter, ne_eq,
                  not_false_eq_true, decide_true, Option.map_some, reportFfp]
                exact map_fst_pair _ _
              · simp only [hzero, hsmall, if_true, if_false, Option.filter, ne_eq,
                  not_false_eq_true, decide_true, Option.map_some, reportFfp, Bool.false_eq_true]
                exact map_fst_pair _ _
      · split
        · rfl
        · exact hother card.cardId fun b => if b then card.cardId else 0

/-- **A visit** does what its report does. -/
theorem perform_report (v : Visit) :
    v.perform t s =
      match v.report t with
      | none => some s
      | some f => s.add t.toTables f := by
  cases v with
  | found f => rfl
  | smtm neId fromEqptId toEqptId ochpId =>
      rw [Visit.perform, getSMTMProtectionEquipmentId_report, Visit.report, Visit.card]
      cases Visit.smtmReport t neId (smtmCardOf t neId fromEqptId toEqptId) with
      | none => rfl
      | some ffp => rfl

/-! ### The FFPs of a discovery -/

/-- The FFPs of the array are those of the list. -/
def Noted (s : Discovery) : Prop := ∀ e, s.arrays .ffps e = true ↔ e ∈ s.items .ffps

/-- The list of the FFPs and its array are left alone. -/
def KeepsFfps (s s' : Discovery) : Prop :=
  s'.items .ffps = s.items .ffps ∧ s'.arrays .ffps = s.arrays .ffps

theorem KeepsFfps.trans {s s₁ s' : Discovery} (h : KeepsFfps s s₁) (h' : KeepsFfps s₁ s') :
    KeepsFfps s s' :=
  ⟨h'.1.trans h.1, h'.2.trans h.2⟩

theorem keepsFfps_mark {kind : Kind} (hkind : kind ≠ .ffps) (e : Str) :
    KeepsFfps s (s.mark kind e) :=
  ⟨rfl, Function.update_of_ne hkind.symm ..⟩

theorem keepsFfps_extendRpt {kind : Kind} {e : Str} (h : s.extendInto .rpt kind e = some s') :
    KeepsFfps s s' := by
  obtain ⟨hitems, -, harrays, -⟩ := Discovery.items_extendInto h
  exact ⟨(hitems .ffps).trans (List.append_nil _), congrFun harrays .ffps⟩

theorem keepsFfps_extendLive {kind : Kind} {e : Str} (hkind : kind ≠ .ffps)
    (h : s.extendInto .live kind e = some s') : KeepsFfps s s' := by
  obtain ⟨hitems, -, harrays, -⟩ := Discovery.items_extendInto h
  refine ⟨?_, congrFun harrays .ffps⟩
  rw [hitems, if_pos rfl, Discovery.only, if_neg hkind.symm]
  exact List.append_nil _

theorem keepsFfps_addToListX {kind : Kind} {addToRptCache : Bool} {e : Str}
    (hkind : kind ≠ .ffps) (h : s.addToListX kind addToRptCache e = some s') :
    KeepsFfps s s' := by
  obtain ⟨s₁, hs₁, h⟩ := Option.bind_eq_some_iff.mp h
  have hkeeps := keepsFfps_extendLive hkind hs₁
  split at h
  · exact hkeeps.trans (keepsFfps_extendRpt h)
  · cases h
    exact hkeeps

theorem keepsFfps_addToList {kind : Kind} {addToRptCache : Bool} {e : Str}
    (hkind : kind ≠ .ffps) (h : s.addToList kind addToRptCache e = some s') :
    KeepsFfps s s' := by
  rw [Discovery.addToList] at h
  split at h
  · cases h
    exact ⟨rfl, rfl⟩
  · exact (keepsFfps_mark hkind e).trans (keepsFfps_addToListX hkind h)

theorem keepsFfps_foldlM {β : Type} {f : Discovery → β → Option Discovery}
    (hf : ∀ b s s', f s b = some s' → KeepsFfps s s') {l : List β}
    (h : l.foldlM f s = some s') : KeepsFfps s s' :=
  Discovery.foldlM_keeps (P := KeepsFfps s) (fun b _ _ hs hs' => hs.trans (hf b _ _ hs'))
    ⟨rfl, rfl⟩ h

theorem facilities_ne_ffps : Kind.facilities ≠ .ffps := nofun

theorem equipments_ne_ffps : Kind.equipments ≠ .ffps := nofun

theorem keepsFfps_addFacilityToList {u : Tables} {entityId : Str}
    (h : s.addFacilityToList u entityId = some s') : KeepsFfps s s' := by
  rw [Discovery.addFacilityToList] at h
  split at h
  · cases h
    exact ⟨rfl, rfl⟩
  · obtain ⟨s₁, hs₁, h⟩ := Option.bind_eq_some_iff.mp h
    have hkeeps : KeepsFfps s s₁ := keepsFfps_foldlM
      (fun id s s' h => keepsFfps_addToList facilities_ne_ffps h) hs₁
    cases h
    split
    · exact hkeeps.trans (keepsFfps_mark facilities_ne_ffps _)
    · exact hkeeps

theorem keepsFfps_addEquipmentToList {u : Tables} {entityId : Str}
    (h : s.addEquipmentToList u entityId = some s') : KeepsFfps s s' := by
  rw [Discovery.addEquipmentToList] at h
  split at h
  · cases h
    exact ⟨rfl, rfl⟩
  · refine (keepsFfps_mark equipments_ne_ffps entityId).trans ?_
    rw [Discovery.addEquipmentToListX] at h
    split at h
    · cases h
      exact ⟨rfl, rfl⟩
    · obtain ⟨s₁, hs₁, h⟩ := Option.bind_eq_some_iff.mp h
      have hkeeps := keepsFfps_foldlM
        (fun facId s s' h => keepsFfps_addFacilityToList (u := u) h) hs₁
      exact hkeeps.trans (keepsFfps_addToListX equipments_ne_ffps h)

theorem keepsFfps_addFfpToRptList {v_ffpInfo : Str}
    (h : s.addFfpToRptList v_ffpInfo = some s') : KeepsFfps s s' := by
  rw [Discovery.addFfpToRptList] at h
  split at h
  · have hkeeps := keepsFfps_extendRpt h
    exact hkeeps
  · cases h
    exact ⟨rfl, rfl⟩

theorem KeepsFfps.noted (h : KeepsFfps s s') (hs : Noted s) : Noted s' := by
  intro e
  rw [h.1, h.2]
  exact hs e

/-- The FFP is put into the list unless it is there. -/
theorem ffps_addFfpWithFacilities {u : Tables} {v_ffpInfo fromFacilityId toFacilityId : Str}
    (hready : s.Ready) (hs : Noted s)
    (h : s.addFfpWithFacilities u v_ffpInfo fromFacilityId toFacilityId = some s') :
    s'.items .ffps = addOnce (s.items .ffps) v_ffpInfo ∧ Noted s' := by
  rw [Discovery.addFfpWithFacilities] at h
  split at h
  · rename_i hmarked
    cases h
    rw [addOnce, if_pos ((hs v_ffpInfo).mp hmarked)]
    exact ⟨rfl, hs⟩
  · rename_i hmarked
    have hnew : v_ffpInfo ∉ s.items .ffps := mt (hs v_ffpInfo).mpr hmarked
    have hready' : (s.mark .ffps v_ffpInfo).Ready := ⟨hready.lists, hready.rptLists⟩
    obtain ⟨s₁, hs₁, h⟩ := Option.bind_eq_some_iff.mp h
    obtain ⟨s₂, hs₂, h⟩ := Option.bind_eq_some_iff.mp h
    have hkeeps : KeepsFfps s₁ s' :=
      (keepsFfps_addFacilityToList hs₂).trans (keepsFfps_addFacilityToList h)
    -- the list and the array get the FFP, and the facilities change neither
    rw [Discovery.addFFPToListX, hready'.addToListX] at hs₁
    obtain rfl := Option.some.inj hs₁
    have hitems : s'.items .ffps = addOnce (s.items .ffps) v_ffpInfo := by
      rw [hkeeps.1, addOnce, if_neg hnew]
      simp [Discovery.items, Discovery.mark]
    refine ⟨hitems, fun e => ?_⟩
    rw [hitems, mem_addOnce, hkeeps.2, ← hs e]
    exact (Discovery.mark_arrays .ffps e).trans (or_congr_right (and_iff_right rfl))

/-- **A report** puts its FFP into the list unless it is there. -/
theorem ffps_add (u : Tables) (f : Found) (hready : s.Ready) (hs : Noted s) :
    ∃ s', s.add u f = some s' ∧ s'.Ready ∧
      s'.items .ffps = f.ffpInfo.toList.foldl addOnce (s.items .ffps) ∧ Noted s' := by
  obtain ⟨s', new, rptFfps, hs', hgrows, -⟩ := Discovery.adds_add (t := u) hready f
  refine ⟨s', hs', hgrows.ready hready, ?_⟩
  have hother (hf : f.ffpInfo = none) (hkeeps : KeepsFfps s s') :
      s'.items .ffps = f.ffpInfo.toList.foldl addOnce (s.items .ffps) ∧ Noted s' := by
    rw [hf]
    exact ⟨hkeeps.1, hkeeps.noted hs⟩
  cases f with
  | link ends type => exact hother rfl (keepsFfps_addToList (by decide : Kind.links ≠ .ffps) hs')
  | conn xcInfo =>
      exact hother rfl (keepsFfps_addToList (by decide : Kind.connections ≠ .ffps) hs')
  | expLink expsInfo =>
      exact hother rfl (keepsFfps_addToList (by decide : Kind.expresses ≠ .ffps) hs')
  | fac entityId => exact hother rfl (keepsFfps_addToList facilities_ne_ffps hs')
  | facility entityId => exact hother rfl (keepsFfps_addFacilityToList hs')
  | equipment entityId => exact hother rfl (keepsFfps_addEquipmentToList hs')
  | ffp neId fromFacilityId toFacilityId =>
      rw [Discovery.add, Discovery.addFFPToList] at hs'
      rw [Found.ffpInfo]
      split at hs'
      · rename_i hnull
        cases hs'
        rw [if_pos hnull]
        exact ⟨rfl, hs⟩
      · rename_i hnull
        obtain ⟨s₁, hs₁, hs'⟩ := Option.bind_eq_some_iff.mp hs'
        obtain ⟨hitems, hnoted⟩ := ffps_addFfpWithFacilities hready hs hs₁
        have hkeeps := keepsFfps_addFfpToRptList hs'
        rw [if_neg hnull]
        exact ⟨hkeeps.1.trans hitems, hkeeps.noted hnoted⟩

/-- **The FFPs of the list** are those the visits report, each of them once. -/
theorem ffps_visitAll (visits : List Visit) (hready : s.Ready) (hs : Noted s) :
    ∃ s', visitAll t visits s = some s' ∧
      s'.items .ffps = (visits.filterMap (Visit.ffp t)).foldl addOnce (s.items .ffps) := by
  induction visits generalizing s with
  | nil => exact ⟨s, rfl, rfl⟩
  | cons v visits ih =>
      have hvisit : ∃ s₁, v.perform t s = some s₁ ∧ s₁.Ready ∧
          s₁.items .ffps = (v.ffp t).toList.foldl addOnce (s.items .ffps) ∧ Noted s₁ := by
        rw [perform_report, Visit.ffp]
        cases v.report t with
        | none => exact ⟨s, rfl, hready, rfl, hs⟩
        | some f => exact ffps_add t.toTables f hready hs
      obtain ⟨s₁, hs₁, hready₁, hitems₁, hnoted₁⟩ := hvisit
      obtain ⟨s', hs', hitems'⟩ := ih hready₁ hnoted₁
      refine ⟨s', ?_, ?_⟩
      · rw [visitAll, List.foldlM_cons, hs₁]
        exact hs'
      · rw [hitems', hitems₁, List.filterMap_cons]
        cases v.ffp t with
        | none => rfl
        | some e => rfl

/-! ### The FFP of two cards -/

variable {neId : Nat} {c c' : Card}

theorem CardTables.Keys.eq_of_cardId (hkeys : t.Keys) (hc : c ∈ t.cmCard) (hc' : c' ∈ t.cmCard)
    (h : c.cardId = c'.cardId) : c = c' :=
  List.inj_on_of_nodup_map hkeys.cards hc hc' h

/-- What `getSMTMPPair` has looked at. -/
theorem getSMTMPPair_spec {stype : Str} (hkeys : t.Keys) (hc : c ∈ t.cmCard)
    (hc' : c' ∈ t.cmCard) (h : getSMTMPPair t neId c.cardId stype = some c'.cardId) :
    c'.neId = neId ∧ ∃ n, c'.slot = some n ∧
      getValidSlotPair c.slot stype (shelfSubtype t c) = some n := by
  obtain ⟨⟨card, shelf⟩, hrow, hslot⟩ := Option.bind_eq_some_iff.mp h
  obtain ⟨n, hn, hfind⟩ := Option.bind_eq_some_iff.mp hslot
  obtain ⟨other, hother, hid'⟩ := Option.bind_eq_some_iff.mp hfind
  obtain ⟨card', hcard', hrow⟩ := List.exists_of_findSome?_eq_some hrow
  have hshelf : card'.cardId = c.cardId ∧ shelfOf t card' = some shelf ∧ card' = card := by
    split at hrow
    · rename_i hcond
      obtain ⟨shelf', hshelf, heq⟩ := Option.map_eq_some_iff.mp hrow
      cases heq
      exact ⟨hcond.2, hshelf, rfl⟩
    · cases hrow
  obtain ⟨hid, hshelf, rfl⟩ := hshelf
  obtain rfl := hkeys.eq_of_cardId hcard' hc hid
  have hcond := List.find?_some hother
  simp only [decide_eq_true_eq] at hcond
  obtain rfl := hkeys.eq_of_cardId (List.mem_of_find?_eq_some hother) hc' (Option.some.inj hid')
  refine ⟨hcond.1, n, hcond.2.2.2.2.1, ?_⟩
  rw [shelfSubtype, hshelf]
  exact hn

theorem comma_not_mem_decimal (n : Nat) : delimiter ∉ decimal n := fun h =>
  absurd (isdigit_of_mem_decimal h) (by decide)

theorem pairInfo_inj (h : pairInfo neId c c' = pairInfo neId c' c) : c.cardId = c'.cardId := by
  have hfields (c c' : Card) :
      ∀ field ∈ [decimal neId, decimal c.cardId, decimal c'.cardId], delimiter ∉ field := by
    simp [comma_not_mem_decimal]
  have hlists := (intercalate_inj (hfields c c') (hfields c' c) nofun nofun).mp h
  simp only [List.cons.injEq, true_and] at hlists
  exact decimal_natCast_inj.mp hlists.1

/-- What a visit of a card of the pair reports. -/
theorem ffp_of_card (hkeys : t.Keys) (hpair : Paired t neId c c') (hv : v.card t = some c) :
    v.ffp t = some (if isSmallSlot (t.neStype neId) c.slot then pairInfo neId c c'
      else pairInfo neId c' c) := by
  cases v with
  | found f => cases hv
  | smtm neId' fromEqptId toEqptId ochpId =>
      have hne : c.neId = neId := (getSMTMPPair_spec hkeys hpair.mem' hpair.mem hpair.pair').1
      have hne' : c.neId = neId' := by
        have hfound {eqptId : Nat} (h : smtmCard t neId' eqptId = some c) : c.neId = neId' := by
          have hcond := List.find?_some h
          simp only [decide_eq_true_eq] at hcond
          exact hcond.1
        rcases Option.or_eq_some_iff.mp hv with h | ⟨-, h⟩
        · exact hfound h
        · exact hfound h
      obtain rfl : neId' = neId := hne'.symm.trans hne
      have hzero : c'.cardId ≠ 0 := hkeys.pos c' hpair.mem'
      have hnull (n : Nat) : decimal n ≠ [] := by
        rw [decimal_natCast]
        simp [Nat.toDigits_ne_nil]
      rw [Visit.ffp, Visit.report, hv, Visit.smtmReport, if_pos hpair.aid, Visit.partnerFfp,
        hpair.pair]
      split
      · rename_i hsmall
        simp [Option.filter, hzero, Found.ffpInfo, hnull, pairInfo]
      · rename_i hsmall
        simp [Option.filter, hzero, Found.ffpInfo, hnull, pairInfo]

/-- The entries of the pair are the texts that its two cards report. -/
theorem pairEntries_perm {visits : List Visit} {l : List Str} {e e' : Str} (hnodup : l.Nodup)
    (hmem : ∀ a, a ∈ l ↔ ∃ v ∈ visits, v.ffp t = some a)
    (hc : ∃ v ∈ visits, v.card t = some c) (hc' : ∃ v ∈ visits, v.card t = some c')
    (he : ∀ v : Visit, v.card t = some c → v.ffp t = some e)
    (he' : ∀ v : Visit, v.card t = some c' → v.ffp t = some e')
    (hpair : ∀ a, a = e ∨ a = e' → a = pairInfo neId c c' ∨ a = pairInfo neId c' c)
    (hother : ∀ v ∈ visits, v.card t ≠ some c → v.card t ≠ some c' →
      v.ffp t ≠ some (pairInfo neId c c') ∧ v.ffp t ≠ some (pairInfo neId c' c)) :
    (pairEntries neId c c' l).Perm (addOnce [e] e') := by
  refine (List.perm_ext_iff_of_nodup (hnodup.filter _)
    (nodup_addOnce (List.nodup_singleton e) e')).mpr fun a => ?_
  rw [List.mem_filter, decide_eq_true_iff, mem_addOnce, List.mem_singleton, hmem]
  constructor
  · rintro ⟨⟨v, hv, hffp⟩, htext⟩
    by_cases hcard : v.card t = some c
    · exact .inl (Option.some.inj (hffp.symm.trans (he v hcard)))
    · by_cases hcard' : v.card t = some c'
      · exact .inr (Option.some.inj (hffp.symm.trans (he' v hcard')))
      · obtain ⟨hnot, hnot'⟩ := hother v hv hcard hcard'
        rcases htext with rfl | rfl
        · exact absurd hffp hnot
        · exact absurd hffp hnot'
  · intro ha
    refine ⟨?_, hpair a ha⟩
    rcases ha with rfl | rfl
    · obtain ⟨v, hv, hcard⟩ := hc
      exact ⟨v, hv, he v hcard⟩
    · obtain ⟨v, hv, hcard⟩ := hc'
      exact ⟨v, hv, he' v hcard⟩

/-- **The FFP of two cards.**  A discovery that comes to both cards lists their FFP once, and the
entry begins with the smaller slot, if the shelf is not of the type HCSS or the smaller slot is not
above the smallest slot; otherwise it has two entries, one from either card. -/
theorem smtmpPair_listed (reportId : Int) {visits : List Visit} (hkeys : t.Keys)
    (hpair : Paired t neId c c') (hless : SmallerSlot c c')
    (hc : ∃ v ∈ visits, v.card t = some c) (hc' : ∃ v ∈ visits, v.card t = some c')
    (hother : ∀ v ∈ visits, v.card t ≠ some c → v.card t ≠ some c' →
      v.ffp t ≠ some (pairInfo neId c c') ∧ v.ffp t ≠ some (pairInfo neId c' c)) :
    ∃ s', visitAll t visits (s.discover true reportId) = some s' ∧
      if shelfSubtype t c ≠ lit "HCSS" ∨ isSmallSlot (t.neStype neId) c.slot = true then
        pairEntries neId c c' (s'.items .ffps) = [pairInfo neId c c']
      else (pairEntries neId c c' (s'.items .ffps)).Perm
        [pairInfo neId c' c, pairInfo neId c c'] := by
  have hstart : (s.discover true reportId).Ready := ⟨fun _ => rfl, nofun⟩
  have hnoted : Noted (s.discover true reportId) := fun e =>
    ⟨fun h => absurd h Bool.false_ne_true, fun h => absurd h List.not_mem_nil⟩
  obtain ⟨s', hs', hitems⟩ := ffps_visitAll (t := t) visits hstart hnoted
  refine ⟨s', hs', ?_⟩
  have hnil : (s.discover true reportId).items .ffps = [] := rfl
  rw [hnil] at hitems
  have hnodup : (s'.items .ffps).Nodup := hitems ▸ nodup_foldl_addOnce List.nodup_nil _
  have hmem (a : Str) : a ∈ s'.items .ffps ↔ ∃ v ∈ visits, v.ffp t = some a := by
    rw [hitems, mem_foldl_addOnce, List.mem_filterMap]
    exact or_iff_right List.not_mem_nil
  -- the partners have slots, and each is the valid pair of the other
  have hpair' : Paired t neId c' c :=
    ⟨hpair.mem', hpair.mem, hpair.aid', hpair.aid, hpair.pair', hpair.pair⟩
  obtain ⟨n, n', hn, hn', hlt⟩ := hless
  obtain ⟨-, m', hm', hslot⟩ := getSMTMPPair_spec hkeys hpair.mem hpair.mem' hpair.pair
  obtain ⟨-, m, hm, hslot'⟩ := getSMTMPPair_spec hkeys hpair.mem' hpair.mem hpair.pair'
  obtain rfl := Option.some.inj (hn.symm.trans hm)
  obtain rfl := Option.some.inj (hn'.symm.trans hm')
  rw [hn] at hslot
  rw [hn'] at hslot'
  have hstraddle := straddles_iff hslot hslot'
  have hperm := pairEntries_perm hnodup hmem hc hc' (fun v hv => ffp_of_card hkeys hpair hv)
    (fun v hv => ffp_of_card hkeys hpair' hv) (fun a ha => by split at ha <;> split at ha <;> tauto)
    hother
  rw [hn, hn'] at hperm
  rw [hn]
  have hsmall (k : Int) :
      isSmallSlot (t.neStype neId) (some k) = true ↔ k ≤ smallestSlot (t.neStype neId) := by
    simp [isSmallSlot]
  by_cases hlow : isSmallSlot (t.neStype neId) (some n) = true
  · -- the smallest slot is between the two, and both reports begin with `c`
    have hhigh := (hstraddle.mpr (.inr (.inl ((hsmall n).mp hlow)))).symm
    rw [hlow, Bool.not_eq_true'] at hhigh
    rw [if_pos (.inr hlow)]
    rw [hlow, hhigh, if_pos rfl, if_neg Bool.false_ne_true, addOnce,
      if_pos (List.mem_singleton_self _)] at hperm
    exact List.perm_singleton.mp hperm
  · -- each report begins with the card that is not visited
    have hhigh : isSmallSlot (t.neStype neId) (some n') = false := by
      rw [Bool.eq_false_iff, ne_eq, hsmall]
      rw [hsmall] at hlow
      omega
    have hnone : ¬ (shelfSubtype t c ≠ lit "HCSS" ∨
        isSmallSlot (t.neStype neId) (some n) = true) := by
      refine not_or.mpr ⟨fun hshelf => hlow ?_, hlow⟩
      rw [hstraddle.mpr (.inl hshelf), hhigh]
      rfl
    have hne : pairInfo neId c c' ∉ [pairInfo neId c' c] := fun h => by
      have hsame := hkeys.eq_of_cardId hpair.mem hpair.mem'
        (pairInfo_inj (List.mem_singleton.mp h))
      rw [hsame, hn'] at hn
      exact hlt.ne' (Option.some.inj hn)
    rw [if_neg hnone]
    rw [if_neg hlow, hhigh, if_neg Bool.false_ne_true, addOnce, if_neg hne] at hperm
    exact hperm

end

/-- Two cards in the slots 9 and 19 of an HCSS shelf. -/
def ninth : Card :=
  ⟨11, 1, lit "SMTMP-1-9", lit "SMTMP", some 1, some 9, some 3, some 5⟩

def nineteenth : Card :=
  ⟨12, 1, lit "SMTMP-1-19", lit "SMTMP", some 1, some 19, some 3, some 5⟩

def highCards : CardTables where
  toTables := Discovery.plainTables
  cmCard := [ninth, nineteenth]
  cmShelf := [⟨5, lit "HCSS"⟩]
  neStype _ := []
  smtmProtection := []
  cmFacility := []
  cmChannelOch := []

/-- The FFP of the two is listed from either of them. -/
theorem smtmpPair_listed_high :
    ∃ s', visitAll highCards [.smtm 1 11 0 0, .smtm 1 0 12 0]
        (Discovery.discover true 1 {}) = some s' ∧
      (pairEntries 1 ninth nineteenth (s'.items .ffps)).Perm [lit "1,12,11", lit "1,11,12"] := by
  have hkeys : highCards.Keys := ⟨by decide, by decide⟩
  have hpair : Paired highCards 1 ninth nineteenth :=
    ⟨.head _, .tail _ (.head _), by decide, by decide, by decide, by decide⟩
  have hcard : (Visit.smtm 1 11 0 0).card highCards = some ninth := rfl
  have hcard' : (Visit.smtm 1 0 12 0).card highCards = some nineteenth := rfl
  obtain ⟨s', hs', hperm⟩ := smtmpPair_listed (s := {}) 1 hkeys hpair
    ⟨9, 19, rfl, rfl, by decide⟩ ⟨_, .head _, hcard⟩ ⟨_, .tail _ (.head _), hcard'⟩
    fun v hv hne hne' => by
      rcases List.mem_pair.mp hv with rfl | rfl
      · exact absurd hcard hne
      · exact absurd hcard' hne'
  refine ⟨s', hs', ?_⟩
  rw [if_neg (by decide)] at hperm
  exact hperm

end Realwork.Circuit
