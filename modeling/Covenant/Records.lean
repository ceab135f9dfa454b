import Covenant.Controller

/-! What the conversion of a chain record keeps. `Converts` lists it field by field. A
record is known by the hash of its staking transaction (`recordHash`), and under the
library's key encodings `removeAlreadySigned` drops exactly the records that list the
member's x-only key (`alreadySigned_iff`). -/

namespace Covenant.Records
open Outcome Bitcoin Covenant.Types Emulator Loop Controller

/-! ## Conversion -/

structure ConvertsSig (lib : Lib) (s : CovenantAdaptorSignatures) (i : CovenantAdaptorSigInfo) :
    Prop where
  pk : lib.toBTCPK s.covPk = .ok i.pk
  sigs : i.sigs = s.adaptorSigs

structure ConvertsUndelegation (lib : Lib) (u : BTCUndelegation) (ud : Undelegation) : Prop where
  unbondingTx : ∃ b, u.unbondingTx = some b ∧ ud.unbondingTxHex = Hex.encodeToString b
  slashingTx : ∃ tx, u.slashingTx = some tx ∧ ud.slashingTxHex = lib.toHexStr tx
  slashingSigs :
    List.Forall₂ (ConvertsSig lib) u.covenantSlashingSigs ud.covenantSlashingSigs
  unbondingSigs : List.Forall₂ (fun s i => lib.toBTCSig s.sig = .ok i.sig ∧ lib.toBTCPK s.pk = .ok i.pk)
    u.covenantUnbondingSigList ud.covenantUnbondingSigs
  delegatorSig : ud.delegatorUnbondingSig = u.delegatorUnbondingSig

/-- The record `r` is converted to `d`. -/
structure Converts (lib : Lib) (r : BTCDelegation) (d : Delegation) : Prop where
  stakingTx : ∃ b, r.stakingTx = some b ∧ d.stakingTxHex = Hex.encodeToString b
  slashingTx : ∃ tx, r.slashingTx = some tx ∧ d.slashingTxHex = lib.toHexStr tx
  covenantSigs : List.Forall₂ (ConvertsSig lib) r.covenantSigs d.covenantSigs
  undelegation : Option.Rel (ConvertsUndelegation lib) r.btcUndelegation d.btcUndelegation
  fpBtcPks : List.Forall₂ (fun fp pk => lib.toBTCPK fp = .ok pk) r.fpBtcPkList d.fpBtcPks
  btcPk : lib.toBTCPK r.btcPk = .ok d.btcPk
  heights : d.startHeight = r.startHeight ∧ d.endHeight = r.endHeight
  totalSat : d.totalSat = r.totalSat
  stakingOutputIdx : d.stakingOutputIdx = 0
  unbondingTime : d.unbondingTime = r.unbondingTime

theorem must_eq_ok {α : Type} {x : Except GoError α} {a : α} : must x = .ok a ↔ x = .ok a := by
  cases x <;> simp [must]

theorem convertAdaptorSigs_eq_ok_iff {lib : Lib} {sigs : List CovenantAdaptorSignatures}
    {infos : List CovenantAdaptorSigInfo} :
    convertAdaptorSigs lib sigs = .ok infos ↔ List.Forall₂ (ConvertsSig lib) sigs infos := by
  unfold convertAdaptorSigs
  rw [mapM_eq_ok_iff]
  constructor
  · intro h
    apply h.imp
    intro s i hs
    obtain ⟨pk, hpk, hi⟩ := bind_eq_ok_iff.mp hs
    cases hi
    exact ⟨must_eq_ok.mp hpk, rfl⟩
  · intro h
    apply h.imp
    rintro s ⟨pk, sigs⟩ ⟨hpk, rfl⟩
    exact bind_eq_ok_iff.mpr ⟨pk, must_eq_ok.mpr hpk, rfl⟩

theorem mapM_unbondingSigs_eq_ok_iff {lib : Lib} {sigs : List SignatureInfo}
    {infos : List CovenantSchnorrSigInfo} :
    (sigs.mapM fun unbondingSig => do
        let sig ← must (lib.toBTCSig unbondingSig.sig)
        let pk ← must (lib.toBTCPK unbondingSig.pk)
        return ({ pk := pk, sig := sig } : CovenantSchnorrSigInfo)) = .ok infos ↔
      List.Forall₂ (fun s i => lib.toBTCSig s.sig = .ok i.sig ∧ lib.toBTCPK s.pk = .ok i.pk)
        sigs infos := by
  rw [mapM_eq_ok_iff]
  constructor
  · intro h
    apply h.imp
    intro s i hs
    obtain ⟨sig, hsig, hs⟩ := bind_eq_ok_iff.mp hs
    obtain ⟨pk, hpk, hi⟩ := bind_eq_ok_iff.mp hs
    cases hi
    exact ⟨must_eq_ok.mp hsig, must_eq_ok.mp hpk⟩
  · intro h
    apply h.imp
    rintro s ⟨pk, sig⟩ ⟨hsig, hpk⟩
    exact bind_eq_ok_iff.mpr
      ⟨sig, must_eq_ok.mpr hsig, bind_eq_ok_iff.mpr ⟨pk, must_eq_ok.mpr hpk, rfl⟩⟩

theorem convertUndelegationType_eq_ok_iff {lib : Lib} {u : BTCUndelegation} {ud : Undelegation} :
    convertUndelegationType lib u = .ok ud ↔ ConvertsUndelegation lib u ud := by
  unfold convertUndelegationType
  constructor
  · intro h
    cases hu : u.unbondingTx with
    | none => simp [hu] at h
    | some b =>
      cases hs : u.slashingTx with
      | none => simp [hu, hs] at h
      | some tx =>
        simp only [hu, hs, bind_eq_ok_iff] at h
        obtain ⟨usigs, husigs, ssigs, hssigs, h⟩ := h
        cases h
        exact ⟨⟨b, hu, rfl⟩, ⟨tx, hs, rfl⟩, convertAdaptorSigs_eq_ok_iff.mp hssigs,
          mapM_unbondingSigs_eq_ok_iff.mp husigs, rfl⟩
  · rintro ⟨⟨b, hu, hb⟩, ⟨tx, hs, htx⟩, hssigs, husigs, hdel⟩
    simp only [hu, hs, bind_eq_ok_iff]
    refine ⟨_, mapM_unbondingSigs_eq_ok_iff.mpr husigs, _, convertAdaptorSigs_eq_ok_iff.mpr hssigs, ?_⟩
    cases ud
    simp_all [pure, Except.pure]

theorem mapM_undelegation_eq_ok_iff {lib : Lib} {u : Option BTCUndelegation}
    {ud : Option Undelegation} :
    u.mapM (convertUndelegationType lib) = .ok ud ↔
      Option.Rel (ConvertsUndelegation lib) u ud := by
  cases u with
  | none =>
    constructor
    · intro h
      cases h
      exact .none
    · intro h
      cases h
      rfl
  | some u =>
    constructor
    · intro h
      obtain ⟨x, hx, h⟩ := bind_eq_ok_iff.mp h
      cases h
      exact .some (convertUndelegationType_eq_ok_iff.mp hx)
    · rintro (h | _)
      exact bind_eq_ok_iff.mpr ⟨_, convertUndelegationType_eq_ok_iff.mpr h, rfl⟩

theorem convertDelegationType_eq_ok_iff {lib : Lib} {r : BTCDelegation} {d : Delegation} :
    convertDelegationType lib r = .ok d ↔ Converts lib r d := by
  unfold convertDelegationType
  constructor
  · intro h
    cases hb : r.stakingTx with
    | none => simp [hb] at h
    | some b =>
      cases hs : r.slashingTx with
      | none => simp [hb, hs] at h
      | some tx =>
        simp only [hb, hs, bind_eq_ok_iff, mapM_eq_ok_iff, must_eq_ok,
          convertAdaptorSigs_eq_ok_iff, mapM_undelegation_eq_ok_iff] at h
        obtain ⟨sigs, hsigs, ud, hud, fps, hfps, pk, hpk, h⟩ := h
        cases h
        exact ⟨⟨b, hb, rfl⟩, ⟨tx, hs, rfl⟩, hsigs, hud, hfps, hpk, ⟨rfl, rfl⟩, rfl, rfl, rfl⟩
  · rintro ⟨⟨b, hb, hhex⟩, ⟨tx, hs, hshex⟩, hsigs, hud, hfps, hpk, ⟨hstart, hend⟩, hsat, hidx, htime⟩
    simp only [hb, hs, bind_eq_ok_iff, mapM_eq_ok_iff, must_eq_ok,
      convertAdaptorSigs_eq_ok_iff, mapM_undelegation_eq_ok_iff]
    refine ⟨_, hsigs, _, hud, _, hfps, _, hpk, ?_⟩
    cases d
    simp_all [pure, Except.pure]

theorem Converts.undelegation_some {lib : Lib} {r : BTCDelegation} {d : Delegation}
    (h : Converts lib r d) {u : BTCUndelegation} (hu : r.btcUndelegation = some u) :
    ∃ ud, d.btcUndelegation = some ud ∧ ConvertsUndelegation lib u ud := by
  have hrel := h.undelegation
  rw [hu] at hrel
  generalize d.btcUndelegation = o at hrel
  cases hrel with
  | some hud => exact ⟨_, rfl, hud⟩

theorem Converts.undelegation_none {lib : Lib} {r : BTCDelegation} {d : Delegation}
    (h : Converts lib r d) (hu : r.btcUndelegation = none) : d.btcUndelegation = none := by
  have hrel := h.undelegation
  rw [hu] at hrel
  generalize d.btcUndelegation = o at hrel
  cases hrel with
  | none => rfl

/-! ## Keys and contents -/

/-- The hash under which the chain keeps a record: that of its staking transaction. -/
def recordHash (lib : Lib) (r : BTCDelegation) : Option Hash :=
  match r.stakingTx with
  | none => none
  | some b =>
    match lib.newBTCTxFromHex (Hex.encodeToString b) with
    | .ok tx => some (lib.txHash tx)
    | .error _ => none

theorem recordHash_congr {lib : Lib} {r r' : BTCDelegation} (h : r.stakingTx = r'.stakingTx) :
    recordHash lib r = recordHash lib r' := by
  unfold recordHash
  rw [h]

theorem recordHash_of_converts {lib : Lib} {r : BTCDelegation} {d : Delegation} {tx : MsgTx}
    (h : Converts lib r d) (htx : lib.newBTCTxFromHex d.stakingTxHex = .ok tx) :
    recordHash lib r = some (lib.txHash tx) := by
  obtain ⟨b, hb, hhex⟩ := h.stakingTx
  rw [hhex] at htx
  unfold recordHash
  simp only [hb, htx]

/-- The x-only keys that have signed a record. -/
def signers (r : BTCDelegation) : List BIP340PubKey := r.covenantSigs.map (·.covPk)

instance (pk : BIP340PubKey) (r : BTCDelegation) : Decidable (pk ∈ signers r) :=
  inferInstanceAs (Decidable (pk ∈ r.covenantSigs.map (·.covPk)))

/-- A record that lists the member's x-only key is one that the member has signed. -/
theorem alreadySigned_iff {lib : Lib} (henc : lib.KeyEncoding) {ce : CovenantEmulator}
    {r : BTCDelegation} {d : Delegation} (h : Converts lib r d) :
    alreadySigned lib ce d = true ↔ ce.pk.x ∈ signers r := by
  unfold alreadySigned signers
  have hsigs := h.covenantSigs
  generalize r.covenantSigs = rs, d.covenantSigs = ds at hsigs
  induction hsigs with
  | nil => simp
  | @cons s i ss is hs _ ih =>
    have hx : i.pk.x = s.covPk := henc.toBTCPK_x _ _ hs.pk
    rw [List.any_cons, List.map_cons, List.mem_cons, Bool.or_eq_true]
    refine or_congr ?_ ih
    rw [beq_iff_eq, henc.serializePubKey_eq, henc.serializePubKey_eq, hx, eq_comm]

/-- A record without the signatures that are added to it. -/
def bareUndelegation (u : BTCUndelegation) : BTCUndelegation :=
  { u with delegatorUnbondingSig := none, covenantSlashingSigs := [], covenantUnbondingSigList := [] }

def bareRecord (r : BTCDelegation) : BTCDelegation :=
  { r with covenantSigs := [], btcUndelegation := r.btcUndelegation.map bareUndelegation }

/-- A delegation without its signatures: everything that is checked and signed. -/
def bare (d : Delegation) : Delegation :=
  { d with
    covenantSigs := []
    btcUndelegation := d.btcUndelegation.map fun ud =>
      { ud with covenantSlashingSigs := [], covenantUnbondingSigs := [],
                delegatorUnbondingSig := none } }

theorem Converts.bare {lib : Lib} {r : BTCDelegation} {d : Delegation} (h : Converts lib r d) :
    Converts lib (bareRecord r) (bare d) where
  stakingTx := h.stakingTx
  slashingTx := h.slashingTx
  covenantSigs := .nil
  undelegation := by
    unfold bareRecord Records.bare
    cases hr : r.btcUndelegation with
    | none =>
      rw [h.undelegation_none hr]
      exact .none
    | some u =>
      obtain ⟨ud, hd, hu⟩ := h.undelegation_some hr
      rw [hd]
      exact .some ⟨hu.unbondingTx, hu.slashingTx, .nil, .nil, rfl⟩
  fpBtcPks := h.fpBtcPks
  btcPk := h.btcPk
  heights := h.heights
  totalSat := h.totalSat
  stakingOutputIdx := h.stakingOutputIdx
  unbondingTime := h.unbondingTime

/-- Records that differ only in signatures convert to delegations that differ only in
signatures. -/
theorem bare_eq_of_converts {lib : Lib} {r r' : BTCDelegation} {d d' : Delegation}
    (h : Converts lib r d) (h' : Converts lib r' d') (hbare : bareRecord r = bareRecord r') :
    bare d = bare d' := by
  have hb := convertDelegationType_eq_ok_iff.mpr h.bare
  have hb' := convertDelegationType_eq_ok_iff.mpr h'.bare
  rw [hbare, hb'] at hb
  exact (Except.ok.inj hb).symm

end Covenant.Records
