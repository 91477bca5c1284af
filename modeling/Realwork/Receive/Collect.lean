import Realwork.Receive.DBWrite

/-!
# Receive — collecting a message

What `AddXmlRecord` makes of a record of a message: `accept` is the record `FillRealworkRecord`
fills in when no call raises.

* `ends_fillRealworkRecord`: a record is accepted or rejected, or its call raises.
* `ends_addXmlRecord`: an accepted record is put into `m_xmlMap`, unless its number is there.
-/

namespace Realwork.Receive

open Realwork.Lib

/-! ### One record -/

/-- The serial number `GetCstSerial` returns, if it returns one. -/
def CstNode.serialOf (env : Env) (node : CstNode) : Option Str :=
  if node.neType = lit "000a" then
    let s := env.getSectorno node.serial node.mms node.rnc node.bts
    if s.errCode ≠ 0 then none else some s.sector
  else if node.neType = lit "0006" ∨ node.neType = lit "0010" then some node.bts
  else some node.serial

/-- The record `FillRealworkRecord` fills in when no call on the database raises. -/
def CstChildRecord.accept (env : Env) (r : CstChildRecord) : Option RealworkRecord :=
  if r.cst.cstNo = [] ∨ r.cstChildNo = [] ∨ (r.sDate = [] ∧ r.eDate ≠ []) then none
  else do
    let pass ← r.preDatePass env
    if pass then none
    else do
      let node ← (CstNode.ofNeId env r.neId r.subNeId).toOption
      let nodeId ← node.getCstNodeId
      let serialno ← node.serialOf env
      some (r.realwork env node nodeId serialno)

theorem CstChildRecord.accept_fields {env : Env} {r : CstChildRecord} {record : RealworkRecord}
    (h : r.accept env = some record) :
    record.cstNo = r.cst.cstNo ∧ record.cstChildNo = r.cstChildNo ∧ record.sDate = r.sDate ∧
      record.eDate = r.eDate ∧ (record.sDate = [] → record.eDate = []) ∧ record.Numbered := by
  unfold accept at h
  split at h
  · cases h
  · rename_i hok
    simp only [not_or, not_and, not_not] at hok
    simp only [Option.bind_eq_bind, Option.bind_eq_some_iff] at h
    obtain ⟨pass, -, h⟩ := h
    cases pass with
    | true => simp at h
    | false =>
        simp only [Bool.false_eq_true, if_false, Option.bind_eq_some_iff] at h
        obtain ⟨node, -, nodeId, -, serialno, -, h⟩ := h
        cases h
        exact ⟨rfl, rfl, rfl, rfl, hok.2.2, hok.1, hok.2.1⟩

section

variable {env : Env} {w : World}

theorem World.Called.refl (w : World) : w.Called w := ⟨_, List.suffix_refl _, rfl⟩

theorem CstNode.ofNeId_error {neId subNeId : Str} {e : Raised}
    (h : CstNode.ofNeId env neId subNeId = .error e) : e = .nodeParse := by
  unfold CstNode.ofNeId at h
  split at h
  · cases h; rfl
  · split at h
    · cases h; rfl
    · dsimp only at h
      split at h <;> cases h
      rfl

/-- `GetCstSerial` finds the serial number, or there is none, or its call raises. -/
theorem CstNode.ends_getCstSerial (node : CstNode) :
    Ends (node.getCstSerial env) w (fun s w' => w.Called w' ∧ node.serialOf env = some s)
      fun e w' => w.Failed e w' ∨ e = .nodeParse ∧ w.Called w' ∧ node.serialOf env = none := by
  unfold getCstSerial serialOf
  split
  · refine ends_bind.mpr (ends_bind.mpr ((ends_call w).mono (fun _ w' hc => ?_)
      fun _ _ hf => .inl hf))
    refine ends_pure.mpr ?_
    dsimp only
    split
    · exact ends_throw.mpr (.inr ⟨rfl, hc, rfl⟩)
    · exact ends_pure.mpr ⟨hc, rfl⟩
  · split
    · exact ends_pure.mpr ⟨.refl w, rfl⟩
    · exact ends_pure.mpr ⟨.refl w, rfl⟩

/-- The body of `FillRealworkRecord`. -/
theorem CstChildRecord.ends_fillBody (r : CstChildRecord) :
    Ends (r.fillBody env) w (fun o w' => w.Called w' ∧ r.accept env = o)
      fun e w' => w.Failed e w' ∨
        (e = .nodeParse ∨ e = .other) ∧ w.Called w' ∧ r.accept env = none := by
  unfold fillBody accept
  by_cases h₁ : r.cst.cstNo = []
  · simpa [h₁] using World.Called.refl w
  by_cases h₂ : r.cstChildNo = []
  · simpa [h₁, h₂] using World.Called.refl w
  by_cases h₃ : r.sDate = [] ∧ r.eDate ≠ []
  · simpa [h₁, h₂, h₃] using World.Called.refl w
  simp only [h₁, h₂, h₃, or_self, if_false]
  refine ends_bind.mpr ?_
  cases r.preDatePass env with
  | none => exact ends_throw.mpr (.inr ⟨.inr rfl, .refl w, rfl⟩)
  | some pass =>
  refine ends_pure.mpr ?_
  cases pass with
  | true => exact ends_pure.mpr ⟨.refl w, rfl⟩
  | false =>
  refine ends_bind.mpr ?_
  cases hnode : CstNode.ofNeId env r.neId r.subNeId with
  | error e =>
      rw [CstNode.ofNeId_error hnode]
      exact ends_throw.mpr (.inr ⟨.inl rfl, .refl w, by simp [Except.toOption]⟩)
  | ok node =>
  refine ends_pure.mpr (ends_bind.mpr ?_)
  cases hid : node.getCstNodeId with
  | none => exact ends_throw.mpr (.inr ⟨.inr rfl, .refl w, by simp [hid, Except.toOption]⟩)
  | some nodeId =>
  refine ends_pure.mpr (ends_bind.mpr (node.ends_getCstSerial.mono ?_ ?_))
  · rintro serialno w' ⟨hc, hs⟩
    exact ends_pure.mpr ⟨hc, by simp [hid, hs, Except.toOption]⟩
  · rintro e w' (hf | ⟨rfl, hc, hs⟩)
    · exact .inl hf
    · exact .inr ⟨.inl rfl, hc, by simp [hid, hs, Except.toOption]⟩

/-- `FillRealworkRecord` accepts or rejects the record.  A call that raises with the session
alive makes it reject the record too, which `refusals` counts. -/
theorem CstChildRecord.ends_fillRealworkRecord (r : CstChildRecord) :
    Ends (r.fillRealworkRecord env) w
      (fun o w' => w.Called w' ∧ r.accept env = o ∨
        ∃ rest, w.outcomes = .error true :: rest ∧ o = none ∧
          w' = { w with outcomes := rest, refusals := w.refusals + 1 })
      fun e w' => e = .dbConnect ∧ w.Failed .dbConnect w' := by
  refine ends_tryCatch.mpr (r.ends_fillBody.mono (fun _ _ h => .inl h) ?_)
  rintro e w' (⟨rest, ⟨rfl, ho, rfl⟩ | ⟨rfl, ho, rfl⟩⟩ | ⟨rfl | rfl, hc, ha⟩)
  · exact ends_bind.mpr (ends_modify.mpr (ends_pure.mpr (.inr ⟨rest, ho, rfl, rfl⟩)))
  · exact ends_throw.mpr ⟨rfl, rest, .inr ⟨rfl, ho, rfl⟩⟩
  · exact ends_pure.mpr (.inl ⟨hc, ha⟩)
  · exact ends_pure.mpr (.inl ⟨hc, ha⟩)

end

/-- `m_xmlMap` with the record, if it is accepted. -/
def addAccepted (env : Env) (r : CstChildRecord) (xmlMap : RealworkMap) : RealworkMap :=
  match r.accept env with
  | some record => xmlMap.insert record.cstChildNo record
  | none => xmlMap

/-- What a call of `AddXmlRecord` from `w` returns, and in which state. -/
inductive Added (env : Env) (r : CstChildRecord) (w : World) : Bool → World → Prop where
  | skipped (hs : w.skip = true) : Added env r w true w
  | taken {rest : List Outcome} (hs : w.skip = false) (ho : rest <:+ w.outcomes) :
      Added env r w true
        { w with outcomes := rest, cstRecord := r.cst, xmlMap := addAccepted env r w.xmlMap }
  | refused {rest : List Outcome} (hs : w.skip = false) (ho : w.outcomes = .error true :: rest) :
      Added env r w true
        { w with outcomes := rest, cstRecord := r.cst, refusals := w.refusals + 1 }
  | lost {rest : List Outcome} (hs : w.skip = false) (ho : w.outcomes = .error false :: rest) :
      Added env r w false
        { w with outcomes := rest, cstRecord := r.cst, working := w.committed }

/-- **A call of `AddXmlRecord`** never raises. -/
theorem ends_addXmlRecord (env : Env) (r : CstChildRecord) (w : World) :
    Ends (addXmlRecord env r) w (Added env r w) fun _ _ => False := by
  refine ends_bind.mpr (ends_get.mpr ?_)
  by_cases hs : w.skip
  · rw [if_pos hs]
    exact .skipped hs
  rw [if_neg hs]
  rw [Bool.not_eq_true] at hs
  refine ends_tryCatch.mpr (ends_bind.mpr (ends_modify.mpr (ends_bind.mpr ?_)))
  refine r.ends_fillRealworkRecord.mono ?_ ?_
  · rintro o w' (⟨⟨rest, ho, rfl⟩, ha⟩ | ⟨rest, ho, rfl, rfl⟩)
    · have htaken : Added env r w true { w with
          outcomes := rest, cstRecord := r.cst, xmlMap := addAccepted env r w.xmlMap } :=
        .taken hs ho
      cases o with
      | none =>
          rw [addAccepted, ha] at htaken
          exact htaken
      | some record =>
          rw [addAccepted, ha] at htaken
          exact htaken
    · exact .refused hs ho
  · rintro e w' ⟨rfl, rest, ⟨he, -, -⟩ | ⟨-, ho, rfl⟩⟩
    · cases he
    · exact .lost hs ho

end Realwork.Receive
