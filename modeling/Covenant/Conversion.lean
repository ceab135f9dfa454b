import Covenant.Calls
import Covenant.Committee

/-! What the emulator sees of a chain record. A record is converted exactly when its
undelegation is complete, and the conversion keeps everything that is read later
except the index of the staking output (`conversion_faithful_iff`). -/

namespace Covenant.Conversion
open Outcome Lists Bitcoin Covenant.Types Emulator Controller Records Calls Reference Committee

/-! ## Well-formed records -/

def KeyParses (lib : Lib) (b : BIP340PubKey) : Prop := ∃ pk, lib.toBTCPK b = .ok pk

structure WellFormedUndelegation (lib : Lib) (u : BTCUndelegation) : Prop where
  slashingKeys : ∀ s ∈ u.covenantSlashingSigs, KeyParses lib s.covPk
  unbondingKeys : ∀ s ∈ u.covenantUnbondingSigList, KeyParses lib s.pk

/-- The transactions are there and the keys are on the curve. -/
structure WellFormed (lib : Lib) (r : BTCDelegation) : Prop where
  stakingTx : r.stakingTx ≠ none
  slashingTx : r.slashingTx ≠ none
  btcPk : KeyParses lib r.btcPk
  fpKeys : ∀ fp ∈ r.fpBtcPkList, KeyParses lib fp
  covenantKeys : ∀ s ∈ r.covenantSigs, KeyParses lib s.covPk
  undelegation : ∀ u, r.btcUndelegation = some u → WellFormedUndelegation lib u

/-- What else `ConvertUndelegationType` panics without. -/
structure CompleteUndelegation (lib : Lib) (u : BTCUndelegation) : Prop where
  unbondingTx : u.unbondingTx ≠ none
  slashingTx : u.slashingTx ≠ none
  signatures : ∀ s ∈ u.covenantUnbondingSigList, ∃ sig, lib.toBTCSig s.sig = .ok sig

theorem exists_convertsSigs {lib : Lib} {sigs : List CovenantAdaptorSignatures}
    (h : ∀ s ∈ sigs, KeyParses lib s.covPk) : ∃ infos, List.Forall₂ (ConvertsSig lib) sigs infos := by
  apply exists_forall₂
  intro s hs
  obtain ⟨pk, hpk⟩ := h s hs
  exact ⟨⟨pk, s.adaptorSigs⟩, hpk, rfl⟩

theorem exists_convertsUndelegation {lib : Lib} {u : BTCUndelegation}
    (h : WellFormedUndelegation lib u) (hc : CompleteUndelegation lib u) :
    ∃ ud, ConvertsUndelegation lib u ud := by
  obtain ⟨b, hb⟩ := Option.ne_none_iff_exists'.mp hc.unbondingTx
  obtain ⟨tx, htx⟩ := Option.ne_none_iff_exists'.mp hc.slashingTx
  obtain ⟨slashing, hslashing⟩ := exists_convertsSigs h.slashingKeys
  have hunbonding : ∃ infos, List.Forall₂ (fun (s : SignatureInfo) (i : CovenantSchnorrSigInfo) =>
      lib.toBTCSig s.sig = .ok i.sig ∧ lib.toBTCPK s.pk = .ok i.pk)
      u.covenantUnbondingSigList infos := by
    apply exists_forall₂
    intro s hs
    obtain ⟨sig, hsig⟩ := hc.signatures s hs
    obtain ⟨pk, hpk⟩ := h.unbondingKeys s hs
    exact ⟨⟨pk, sig⟩, hsig, hpk⟩
  obtain ⟨unbonding, hunbonding⟩ := hunbonding
  exact ⟨⟨_, _, slashing, unbonding, _⟩, ⟨b, hb, rfl⟩, ⟨tx, htx, rfl⟩, hslashing, hunbonding, rfl⟩

theorem completeUndelegation_of_converts {lib : Lib} {u : BTCUndelegation} {ud : Undelegation}
    (h : ConvertsUndelegation lib u ud) : CompleteUndelegation lib u where
  unbondingTx := by
    obtain ⟨b, hb, _⟩ := h.unbondingTx
    rw [hb]
    exact Option.some_ne_none b
  slashingTx := by
    obtain ⟨tx, htx, _⟩ := h.slashingTx
    rw [htx]
    exact Option.some_ne_none tx
  signatures s hs := by
    obtain ⟨i, _, hi⟩ := exists_right_of_mem h.unbondingSigs hs
    exact ⟨i.sig, hi.1⟩

/-- Of the records with their transactions and keys, those are converted whose
undelegation, if there is one, is complete. -/
theorem converts_iff_complete {lib : Lib} {r : BTCDelegation} (h : WellFormed lib r) :
    (∃ d, convertDelegationType lib r = .ok d) ↔
      ∀ u, r.btcUndelegation = some u → CompleteUndelegation lib u := by
  simp only [convertDelegationType_eq_ok_iff]
  constructor
  · rintro ⟨d, hd⟩ u hu
    obtain ⟨ud, _, hud⟩ := hd.undelegation_some hu
    exact completeUndelegation_of_converts hud
  · intro hcomplete
    obtain ⟨b, hb⟩ := Option.ne_none_iff_exists'.mp h.stakingTx
    obtain ⟨tx, htx⟩ := Option.ne_none_iff_exists'.mp h.slashingTx
    obtain ⟨pk, hpk⟩ := h.btcPk
    obtain ⟨fps, hfps⟩ := exists_forall₂ h.fpKeys
    obtain ⟨sigs, hcov⟩ := exists_convertsSigs h.covenantKeys
    have hud : ∃ ud, Option.Rel (ConvertsUndelegation lib) r.btcUndelegation ud := by
      cases hu : r.btcUndelegation with
      | none => exact ⟨none, .none⟩
      | some u =>
        obtain ⟨ud, hud⟩ := exists_convertsUndelegation (h.undelegation u hu) (hcomplete u hu)
        exact ⟨some ud, .some hud⟩
    obtain ⟨ud, hud⟩ := hud
    exact ⟨⟨pk, fps, _, _, _, _, 0, _, _, sigs, ud⟩, ⟨b, hb, rfl⟩, ⟨tx, htx, rfl⟩, hcov, hud, hfps,
      hpk, ⟨rfl, rfl⟩, rfl, rfl, rfl⟩

/-! ## What is kept -/

structure FaithfulUndelegation (lib : Lib) (u : BTCUndelegation) (ud : Undelegation) : Prop where
  unbondingTx : Hex.decodeString ud.unbondingTxHex = u.unbondingTx
  slashingTx : Hex.decodeString ud.slashingTxHex = u.slashingTx.map (·.bytes)
  slashingSigs : ud.covenantSlashingSigs.map (fun i => (i.pk.x, i.sigs)) =
    u.covenantSlashingSigs.map fun s => (s.covPk, s.adaptorSigs)
  unbondingSigs :
    ud.covenantUnbondingSigs.map (fun i => (i.pk.x, lib.newBIP340SignatureFromBTCSig i.sig)) =
      u.covenantUnbondingSigList.map fun s => (s.pk, s.sig)

/-- The delegation carries what is read of the record: scalars, keys, signatures in order,
transaction bytes, and the output index in the calls that spend the staking output. -/
structure Faithful (lib : Lib) (r : BTCDelegation) (d : Delegation) : Prop where
  btcPk : d.btcPk.x = r.btcPk
  totalSat : d.totalSat = r.totalSat
  startHeight : d.startHeight = r.startHeight
  endHeight : d.endHeight = r.endHeight
  unbondingTime : d.unbondingTime = r.unbondingTime
  stakingOutputIdx : d.stakingOutputIdx = r.stakingOutputIdx
  fpBtcPks : d.fpBtcPks.map (·.x) = r.fpBtcPkList
  covenantSigs : d.covenantSigs.map (fun i => (i.pk.x, i.sigs)) =
    r.covenantSigs.map fun s => (s.covPk, s.adaptorSigs)
  stakingTx : Hex.decodeString d.stakingTxHex = r.stakingTx
  slashingTx : Hex.decodeString d.slashingTxHex = r.slashingTx.map (·.bytes)
  undelegation : Option.Rel (FaithfulUndelegation lib) r.btcUndelegation d.btcUndelegation
  calls : ∀ ce, ∀ c ∈ libCalls lib ce (some d), ∀ idx, stakingOutputOf c = some idx →
    idx = r.stakingOutputIdx

theorem map_sigs_eq {lib : Lib} (henc : lib.KeyEncoding) {sigs : List CovenantAdaptorSignatures}
    {infos : List CovenantAdaptorSigInfo} (h : List.Forall₂ (ConvertsSig lib) sigs infos) :
    infos.map (fun i => (i.pk.x, i.sigs)) = sigs.map fun s => (s.covPk, s.adaptorSigs) := by
  apply map_eq_of_forall₂ _ h
  intro s i hs
  rw [henc.toBTCPK_x _ _ hs.pk, hs.sigs]

theorem decodeString_toHexStr {lib : Lib} (hrec : lib.RecordEncoding) (tx : BTCSlashingTx) :
    Hex.decodeString (lib.toHexStr tx) = some tx.bytes := by
  rw [hrec.toHexStr_eq, Hex.decodeString_encodeToString]

theorem faithfulUndelegation_of_converts {lib : Lib} (henc : lib.KeyEncoding)
    (hrec : lib.RecordEncoding) {u : BTCUndelegation} {ud : Undelegation}
    (h : ConvertsUndelegation lib u ud) : FaithfulUndelegation lib u ud where
  unbondingTx := by
    obtain ⟨b, hb, hhex⟩ := h.unbondingTx
    rw [hhex, hb, Hex.decodeString_encodeToString]
  slashingTx := by
    obtain ⟨tx, htx, hhex⟩ := h.slashingTx
    rw [hhex, htx, decodeString_toHexStr hrec, Option.map_some]
  slashingSigs := map_sigs_eq henc h.slashingSigs
  unbondingSigs := by
    apply map_eq_of_forall₂ _ h.unbondingSigs
    intro s i hs
    rw [henc.toBTCPK_x _ _ hs.2, hrec.toBTCSig_bytes _ _ hs.1]

/-- With the staking output at index zero nothing is lost. -/
theorem faithful_of_converts {lib : Lib} (henc : lib.KeyEncoding) (hrec : lib.RecordEncoding)
    {r : BTCDelegation} {d : Delegation} (h : Converts lib r d) (hidx : r.stakingOutputIdx = 0) :
    Faithful lib r d where
  btcPk := henc.toBTCPK_x _ _ h.btcPk
  totalSat := h.totalSat
  startHeight := h.heights.1
  endHeight := h.heights.2
  unbondingTime := h.unbondingTime
  stakingOutputIdx := h.stakingOutputIdx.trans hidx.symm
  fpBtcPks := by
    have hmap := map_eq_of_forall₂ (f := id) (fun _ _ hpk => henc.toBTCPK_x _ _ hpk) h.fpBtcPks
    rwa [List.map_id] at hmap
  covenantSigs := map_sigs_eq henc h.covenantSigs
  stakingTx := by
    obtain ⟨b, hb, hhex⟩ := h.stakingTx
    rw [hhex, hb, Hex.decodeString_encodeToString]
  slashingTx := by
    obtain ⟨tx, htx, hhex⟩ := h.slashingTx
    rw [hhex, htx, decodeString_toHexStr hrec, Option.map_some]
  undelegation := by
    cases hr : r.btcUndelegation with
    | none =>
      rw [h.undelegation_none hr]
      exact .none
    | some u =>
      obtain ⟨ud, hd, hu⟩ := h.undelegation_some hr
      rw [hd]
      exact .some (faithfulUndelegation_of_converts henc hrec hu)
  calls := by
    intro ce c hc idx hcall
    rw [(takenFrom_libCalls lib ce d c hc).stakingOutput idx hcall, h.stakingOutputIdx, hidx]

/-- **Conversion.** A record with its transactions and well-formed keys is converted
exactly when its undelegation is complete, and the result is faithful exactly when the
staking output is at index zero. -/
theorem conversion_faithful_iff (lib : Lib) (henc : lib.KeyEncoding) (hrec : lib.RecordEncoding)
    (r : BTCDelegation) (hr : WellFormed lib r) :
    ((∃ d, convertDelegationType lib r = .ok d) ↔
        ∀ u, r.btcUndelegation = some u → CompleteUndelegation lib u) ∧
      ∀ d, convertDelegationType lib r = .ok d →
        (Faithful lib r d ↔ r.stakingOutputIdx = 0) := by
  refine ⟨converts_iff_complete hr, ?_⟩
  intro d hd
  have hconv := convertDelegationType_eq_ok_iff.mp hd
  constructor
  · intro hf
    exact hf.stakingOutputIdx.symm.trans hconv.stakingOutputIdx
  · intro hidx
    exact faithful_of_converts henc hrec hconv hidx

/-- The sample record with another finality provider, after two members have signed. -/
def signedRecord : BTCDelegation :=
  { sampleRecord with
    fpBtcPkList := [(key 8).x, (key 10).x]
    covenantSigs := [⟨(key 2).x, [[1], [2]]⟩, ⟨(key 9).x, [[3], [4]]⟩]
    btcUndelegation := some ⟨some (serialize unbondingTx), some ⟨serialize unbondingSlashingTx⟩, none,
      [⟨(key 2).x, [[5], [6]]⟩, ⟨(key 9).x, [[7], [8]]⟩], [⟨(key 2).x, [9]⟩, ⟨(key 9).x, [10]⟩]⟩ }

theorem wellFormed_signedRecord : WellFormed sampleLib signedRecord where
  stakingTx := nofun
  slashingTx := nofun
  btcPk := ⟨_, rfl⟩
  fpKeys fp _ := ⟨_, rfl⟩
  covenantKeys s _ := ⟨_, rfl⟩
  undelegation u hu := by
    cases hu
    exact ⟨fun s _ => ⟨_, rfl⟩, fun s _ => ⟨_, rfl⟩⟩

theorem conversion_faithful_iff_sample :
    ∃ d, convertDelegationType sampleLib signedRecord = .ok d ∧ Faithful sampleLib signedRecord d := by
  obtain ⟨hconverts, hfaithful⟩ := conversion_faithful_iff sampleLib sampleLib_keyEncoding
    sampleLib_recordEncoding signedRecord wellFormed_signedRecord
  have hcomplete : ∀ u, signedRecord.btcUndelegation = some u → CompleteUndelegation sampleLib u := by
    intro u hu
    cases hu
    exact ⟨nofun, nofun, fun s _ => ⟨_, rfl⟩⟩
  obtain ⟨d, hd⟩ := hconverts.mpr hcomplete
  exact ⟨d, hd, (hfaithful d hd).mpr rfl⟩

/-- A record whose staking output is at index one is converted to a delegation with index
zero. -/
theorem conversion_drops_index : ∃ d,
    convertDelegationType sampleLib { sampleRecord with stakingOutputIdx := 1 } = .ok d ∧
      ¬ Faithful sampleLib { sampleRecord with stakingOutputIdx := 1 } d := by
  refine ⟨sampleDelegation, convertDelegationType_eq_ok_iff.mpr { converts_sampleRecord with }, ?_⟩
  intro h
  exact absurd h.stakingOutputIdx (by decide)

end Covenant.Conversion
