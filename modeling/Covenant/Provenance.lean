import Covenant.Agreement

/-! Where the signatures on the chain come from. On a chain where nobody else uses the
members' keys, what is recorded at a delegation is a journal of messages (`Filed`), and the
member's quorum test counts its signers (`countsSigners_of_filed`). A message of the journal
under a member's key was sent in a tick of that member, which was shown these transactions
without its signature and found that they keep the rules on slashing under parameters that
the chain had (`recorded_is_accounted`). -/

namespace Covenant.Provenance
open Outcome Interaction Reactor Bitcoin Covenant.Types Emulator Signing Loop Controller Records
  Chain Runs Ticks Member Committee Agreement Reference

/-! ## Journals -/

variable {lib : Lib}

/-- The signatures recorded at `x` are those of the messages `ms`, in order. -/
structure Filed (x : Entry lib) (ms : List MsgAddCovenantSigs) : Prop where
  slashing : x.record.covenantSigs = ms.map fun m => ⟨m.pk, m.slashingTxSigs⟩
  unbonding : ∀ u, x.record.btcUndelegation = some u →
    u.covenantSlashingSigs = ms.map (fun m => ⟨m.pk, m.slashingUnbondingTxSigs⟩) ∧
      u.covenantUnbondingSigList = ms.map fun m => ⟨m.pk, m.unbondingTxSig⟩
  distinct : (ms.map (·.pk)).Nodup
  concerns : ∀ m ∈ ms, m.stakingTxHash = lib.hashString x.hash

theorem Filed.signers_eq {x : Entry lib} {ms : List MsgAddCovenantSigs} (h : Filed x ms) :
    signers x.record = ms.map (·.pk) := by
  unfold signers
  rw [h.slashing, List.map_map]
  rfl

theorem filed_setStatus {x : Entry lib} {ms : List MsgAddCovenantSigs} (h : Filed x ms)
    (hash : Hash) (status : BTCDelegationStatus) : Filed (x.setStatus hash status) ms := by
  unfold Entry.setStatus
  split
  · exact ⟨h.slashing, h.unbonding, h.distinct, h.concerns⟩
  · exact h

theorem filed_undelegate {x : Entry lib} {ms : List MsgAddCovenantSigs} (h : Filed x ms)
    (hash : Hash) (sig : BIP340Signature) : Filed (x.undelegate hash sig) ms := by
  unfold Entry.undelegate
  split
  · refine ⟨h.slashing, ?_, h.distinct, h.concerns⟩
    intro u hu
    obtain ⟨u', hu', rfl⟩ := Option.map_eq_some_iff.mp hu
    exact h.unbonding u' hu'
  · exact h

/-- A recorded message is the next one of the journal. -/
theorem filed_addCovenantSigs {x : Entry lib} {ms : List MsgAddCovenantSigs} (h : Filed x ms)
    {m : MsgAddCovenantSigs} (hhash : lib.hashString x.hash = m.stakingTxHash)
    (hnew : m.pk ∉ signers x.record) :
    Filed { x with record := addCovenantSigs m x.record, keyed := x.keyed } (ms ++ [m]) where
  slashing := by
    rw [List.map_append, ← h.slashing]
    rfl
  unbonding u hu := by
    obtain ⟨u', hu', rfl⟩ := Option.map_eq_some_iff.mp hu
    obtain ⟨hslashing, hunbonding⟩ := h.unbonding u' hu'
    rw [List.map_append, List.map_append, ← hslashing, ← hunbonding]
    exact ⟨rfl, rfl⟩
  distinct := by
    rw [h.signers_eq] at hnew
    rw [List.map_append, List.map_singleton]
    exact List.nodup_append.mpr ⟨h.distinct, List.nodup_singleton _, by
      intro key hkey key' hkey' heq
      rw [List.mem_singleton.mp hkey'] at heq
      exact hnew (heq ▸ hkey)⟩
  concerns m' hm' := by
    rcases List.mem_append.mp hm' with hm' | hm'
    · exact h.concerns m' hm'
    · rw [List.mem_singleton.mp hm']
      exact hhash.symm

theorem filed_addSigs {x : Entry lib} {ms : List MsgAddCovenantSigs} (h : Filed x ms)
    (m : MsgAddCovenantSigs) : ∃ ms', Filed (x.addSigs m) ms' ∧ ∀ m' ∈ ms', m' ∈ ms ∨ m' = m := by
  unfold Entry.addSigs
  split
  · rename_i hcond
    refine ⟨ms ++ [m], filed_addCovenantSigs h hcond.1 hcond.2, ?_⟩
    intro m' hm'
    simpa using hm'
  · exact ⟨ms, h, fun m' hm' => Or.inl hm'⟩

theorem filed_addAll {x : Entry lib} {ms : List MsgAddCovenantSigs} (h : Filed x ms)
    (msgs : List MsgAddCovenantSigs) :
    ∃ ms', Filed (x.addAll msgs) ms' ∧ ∀ m' ∈ ms', m' ∈ ms ∨ m' ∈ msgs := by
  unfold Entry.addAll
  induction msgs generalizing x ms with
  | nil => exact ⟨ms, h, fun m' hm' => Or.inl hm'⟩
  | cons m msgs ih =>
    obtain ⟨ms₁, h₁, hsub₁⟩ := filed_addSigs h m
    obtain ⟨ms₂, h₂, hsub₂⟩ := ih h₁
    refine ⟨ms₂, h₂, ?_⟩
    intro m' hm'
    rcases hsub₂ m' hm' with hm₁ | hm₁
    · rcases hsub₁ m' hm₁ with hm₀ | rfl
      · exact Or.inl hm₀
      · exact Or.inr (List.mem_cons_self ..)
    · exact Or.inr (List.mem_cons_of_mem _ hm₁)

/-! ## A chain without forgeries -/

/-- New delegations come without signatures, and messages from elsewhere do not use the
keys `keys`. -/
def Unforged (keys : BIP340PubKey → Prop) : Move lib → Prop
  | .create _ x => Filed x []
  | .sign m => ¬ keys m.pk
  | _ => True

abbrev Guarded (keys : BIP340PubKey → Prop) : Ledger lib → Ledger lib → Prop :=
  EvolvesIf fun _ => Unforged keys

/-- What stands on the chain is a journal, and the messages under the keys `keys`, as well
as those on their way, satisfy `P`. -/
structure Books (keys : BIP340PubKey → Prop) (P : MsgAddCovenantSigs → Prop) (c : Ledger lib) :
    Prop where
  mempool : ∀ msgs ∈ c.mempool, ∀ m ∈ msgs, P m
  filed : ∀ x ∈ c.dels.entries, ∃ ms, Filed x ms ∧ ∀ m ∈ ms, keys m.pk → P m

variable {keys : BIP340PubKey → Prop} {P P' : MsgAddCovenantSigs → Prop} {c c' : Ledger lib}

theorem Books.mono (h : Books keys P c) (hP : ∀ m, P m → P' m) : Books keys P' c where
  mempool msgs hmsgs m hm := hP m (h.mempool msgs hmsgs m hm)
  filed x hx := by
    obtain ⟨ms, hms, hkeys⟩ := h.filed x hx
    exact ⟨ms, hms, fun m hm hkey => hP m (hkeys m hm hkey)⟩

/-- Entries rewritten so that their journals only grow by messages as allowed. -/
theorem Books.rewrite (h : Books keys P c) {f : Entry lib → Entry lib}
    (hf : ∀ x, Entry.Grows x (f x))
    (hfiled : ∀ x ms, Filed x ms → ∃ ms', Filed (f x) ms' ∧
      ∀ m ∈ ms', m ∈ ms ∨ (keys m.pk → P m)) : Books keys P (c.rewrite f hf) where
  mempool := h.mempool
  filed y hy := by
    obtain ⟨x, hx, rfl⟩ := List.mem_map.mp hy
    obtain ⟨ms, hms, hkeys⟩ := h.filed x hx
    obtain ⟨ms', hms', hsub⟩ := hfiled x ms hms
    refine ⟨ms', hms', ?_⟩
    intro m hm hkey
    rcases hsub m hm with hold | hnew
    · exact hkeys m hold hkey
    · exact hnew hkey

/-- **Step lemma.** A move of the chain keeps the books. -/
theorem Books.guarded (h : Books keys P c) (hs : Guarded keys c c') : Books keys P c' := by
  cases hs with
  | govern ckpt staking => exact ⟨h.mempool, h.filed⟩
  | create i x hx hnew =>
    refine ⟨h.mempool, ?_⟩
    intro y hy
    rcases List.mem_append.mp hy with hy | hy
    · exact h.filed y (List.mem_of_mem_take hy)
    · rcases List.mem_cons.mp hy with rfl | hy
      · exact ⟨[], hnew, by simp⟩
      · exact h.filed y (List.mem_of_mem_drop hy)
  | setStatus hash status =>
    exact h.rewrite _ fun x ms hms =>
      ⟨ms, filed_setStatus hms hash status, fun m hm => Or.inl hm⟩
  | undelegate hash sig =>
    exact h.rewrite _ fun x ms hms => ⟨ms, filed_undelegate hms hash sig, fun m hm => Or.inl hm⟩
  | sign m hm =>
    refine h.rewrite _ fun x ms hms => ?_
    obtain ⟨ms', hms', hsub⟩ := filed_addSigs hms m
    refine ⟨ms', hms', fun m' hm' => (hsub m' hm').imp id ?_⟩
    rintro rfl hkey
    exact absurd hkey hm
  | deliver before after msgs hpool =>
    have hsent : ∀ m ∈ msgs, P m := h.mempool msgs (by rw [hpool]; simp)
    have hfiled := h.rewrite (Entry.grows_addAll msgs) fun x ms hms => by
      obtain ⟨ms', hms', hsub⟩ := filed_addAll hms msgs
      exact ⟨ms', hms', fun m' hm' => (hsub m' hm').imp id fun hin _ => hsent m' hin⟩
    refine ⟨?_, hfiled.filed⟩
    intro msgs' hmsgs'
    apply h.mempool msgs'
    rw [hpool]
    rcases List.mem_append.mp hmsgs' with hin | hin
    · exact List.mem_append_left _ hin
    · exact List.mem_append_right _ (List.mem_cons_of_mem _ hin)
  | expire before after msgs hpool =>
    refine ⟨?_, h.filed⟩
    intro msgs' hmsgs'
    apply h.mempool msgs'
    rw [hpool]
    rcases List.mem_append.mp hmsgs' with hin | hin
    · exact List.mem_append_left _ hin
    · exact List.mem_append_right _ (List.mem_cons_of_mem _ hin)

/-- **Step lemma.** An answered call keeps the books when what it sends satisfies `P`. -/
theorem Books.responds (h : Books keys P c) {e : Event bbnClient} (hs : Responds c e c')
    (hsend : ∀ msgs, sendOf e = some msgs → ∀ m ∈ msgs, P m) : Books keys P c' := by
  obtain ⟨call, a⟩ := e
  cases call with
  | btcCheckpointParams =>
    obtain ⟨rfl, _⟩ := hs
    exact h
  | btcStakingParams =>
    obtain ⟨rfl, _⟩ := hs
    exact h
  | btcDelegations status pagination =>
    obtain ⟨rfl, _⟩ := hs
    exact h
  | reliablySendMsgs msgs =>
    obtain rfl := hs
    refine ⟨?_, h.filed⟩
    intro msgs' hmsgs'
    rcases List.mem_append.mp hmsgs' with hin | hin
    · exact h.mempool msgs' hin
    · rw [List.mem_singleton.mp hin]
      exact hsend msgs rfl
  | enter params btcDels =>
    obtain rfl := hs
    exact h

/-! ## Runs -/

section

variable {ι : Type} {ls ks : Log ι} {m : MsgAddCovenantSigs}

/-- Some member sent the message. -/
def SentIn (ls : Log ι) (m : MsgAddCovenantSigs) : Prop :=
  ∃ i msgs answer, .act i (.event ⟨.reliablySendMsgs msgs, answer⟩) ∈ ls ∧ m ∈ msgs

theorem SentIn.mono (h : SentIn ls m) : SentIn (ls ++ ks) m := by
  obtain ⟨i, msgs, answer, hin, hm⟩ := h
  exact ⟨i, msgs, answer, List.mem_append_left _ hin, hm⟩

theorem sentIn_of_event {i : ι} {e : Event bbnClient} {msgs : List MsgAddCovenantSigs}
    (hsend : sendOf e = some msgs) (hm : m ∈ msgs) : SentIn (ls ++ [.act i (.event e)]) m := by
  obtain ⟨call, answer⟩ := e
  cases call with
  | reliablySendMsgs msgs' =>
    obtain rfl := Option.some.inj hsend
    exact ⟨i, _, answer, by simp, hm⟩
  | _ => cases hsend

end

variable {ι : Type} [DecidableEq ι] {bc : ι → BabylonController} {ce₀ : ι → CovenantEmulator}
  {c₀ : Ledger lib} {ls : Log ι} {ph : ι → Phase bbnClient Halt CovenantEmulator}

/-- Runs of a committee while nobody else uses the keys `keys`. -/
abbrev GuardedRun (keys : BIP340PubKey → Prop) (lib : Lib) (bc : ι → BabylonController)
    (ce₀ : ι → CovenantEmulator) (c₀ : Ledger lib) (ls : Log ι)
    (ph : ι → Phase bbnClient Halt CovenantEmulator) (c : Ledger lib) : Prop :=
  System.Run ((babylon lib ι).within (Guarded keys)) (fun i => memberTick lib (bc i))
    (fun i => .select (ce₀ i)) c₀ ls ph c

theorem GuardedRun.committee (h : GuardedRun keys lib bc ce₀ c₀ ls ph c) :
    CommitteeRun lib bc ce₀ c₀ ls ph c :=
  System.Run.of_within (fun hs => hs.evolves) h

/-- Nothing under the keys is on the chain, and nothing is on its way to it. -/
def Unused (keys : BIP340PubKey → Prop) (c : Ledger lib) : Prop := Books keys (fun _ => False) c

/-- **Run lemma.** -/
theorem books_of_run (h₀ : Unused keys c₀) (h : GuardedRun keys lib bc ce₀ c₀ ls ph c) :
    Books keys (SentIn ls) c := by
  refine h.environment (P := fun ls c => Books keys (SentIn ls) c) ?_ ?_ ?_
  · exact Books.mono h₀ fun m hm => hm.elim
  · intro ls c c' hbooks hs
    exact (hbooks.mono fun m hm => hm.mono).guarded hs
  · intro ls i a c c' hbooks hr
    have hmore : Books keys (SentIn (ls ++ [.act i a])) c := hbooks.mono fun m hm => hm.mono
    cases a with
    | event e => exact hmore.responds hr fun msgs hsend m hm => sentIn_of_event hsend hm
    | _ => exact Eq.mpr (congrArg _ hr) hmore

/-! ## What the quorum test counts -/

/-- The delegation `d`, made of the record `r`, holds the three signatures of each signer of
the record, and its quorum test counts the signers. -/
structure CountsSigners (r : BTCDelegation) (d : Delegation) (ud : Undelegation) : Prop where
  distinct : (signers r).Nodup
  slashing : d.covenantSigs.length = (signers r).length
  unbondingSlashing : ud.covenantSlashingSigs.length = (signers r).length
  unbonding : ud.covenantUnbondingSigs.length = (signers r).length
  quorum : ∀ q : UInt32, d.hasCovenantQuorum q = .ok (decide (q.toNat ≤ (signers r).length))

theorem countsSigners_of_filed {x : Entry lib} {ms : List MsgAddCovenantSigs} (h : Filed x ms)
    {d : Delegation} {ud : Undelegation} (hd : Converts lib x.record d)
    (hud : d.btcUndelegation = some ud) (hlen : (signers x.record).length < 2 ^ 32) :
    CountsSigners x.record d ud := by
  have hsigners : (signers x.record).length = ms.length := by rw [h.signers_eq, List.length_map]
  obtain ⟨u, hu⟩ : ∃ u, x.record.btcUndelegation = some u := by
    cases hu : x.record.btcUndelegation with
    | none =>
      rw [hd.undelegation_none hu] at hud
      cases hud
    | some u => exact ⟨u, rfl⟩
  obtain ⟨ud', hud', hconv⟩ := hd.undelegation_some hu
  rw [hud] at hud'
  obtain rfl := Option.some.inj hud'
  obtain ⟨hslash, hunb⟩ := h.unbonding u hu
  have hone : d.covenantSigs.length = ms.length := by
    rw [← hd.covenantSigs.length_eq, h.slashing, List.length_map]
  have htwo : ud.covenantSlashingSigs.length = ms.length := by
    rw [← hconv.slashingSigs.length_eq, hslash, List.length_map]
  have hthree : ud.covenantUnbondingSigs.length = ms.length := by
    rw [← hconv.unbondingSigs.length_eq, hunb, List.length_map]
  refine ⟨?_, hone.trans hsigners.symm, htwo.trans hsigners.symm, hthree.trans hsigners.symm, ?_⟩
  · rw [h.signers_eq]
    exact h.distinct
  · intro q
    have hnat : (UInt32.ofNat ms.length).toNat = ms.length := by
      rw [UInt32.toNat_ofNat']
      omega
    have hge : UInt32.ofNat ms.length ≥ q ↔ q.toNat ≤ ms.length := by
      rw [ge_iff_le, UInt32.le_iff_toNat_le, hnat]
    rw [Delegation.hasCovenantQuorum_eq hud]
    simp only [Undelegation.hasAllSignatures, Undelegation.hasCovenantQuorumOnUnbonding,
      Undelegation.hasCovenantQuorumOnSlashing, hone, hthree, hsigners, hge, ge_iff_le,
      Bool.and_self]

/-! ### A signature that is included -/

theorem filed_sampleEntry : Filed sampleEntry [] where
  slashing := rfl
  unbonding u hu := by
    cases hu
    exact ⟨rfl, rfl⟩
  distinct := List.nodup_nil
  concerns m hm := by cases hm

theorem unused_sampleLedger (keys : BIP340PubKey → Prop) : Unused keys (sampleLedger 2 []) where
  mempool msgs hmsgs := by cases hmsgs
  filed x hx := by
    rw [List.mem_singleton.mp hx]
    exact ⟨[], filed_sampleEntry, by simp⟩

theorem run_includedLog (keys : BIP340PubKey → Prop) :
    ∃ ph, GuardedRun keys sampleLib (fun _ => sampleController) (fun b => startWith (memberKey b))
      (sampleLedger 2 []) includedLog ph includedLedger := by
  have hinit : GuardedRun keys sampleLib (fun _ => sampleController)
      (fun b => startWith (memberKey b)) (sampleLedger 2 []) [] _ (sampleLedger 2 []) := .init
  have htick := hinit.complete rfl (steps_rpcTick (memberKey true) (by decide))
    (answers_rpcTick true (memberKey true) 2 []).within
  exact ⟨_, htick.env (EvolvesIf.deliver _ [] [] [includedMsg] rfl trivial)⟩

/-! ## Accounting for a signature -/

/-- The transactions of a record keep the rules on slashing: the one slashing transaction
spends output 0 of the staking transaction, the other one output 0 of the unbonding
transaction, and each pays the slashing rate of that output to the address. The staking output
is number 0 whatever the record says, since the conversion drops `StakingOutputIdx`. -/
structure KeepsRules (lib : Lib) (payTo : Address → Bytes) (minSlashed : Int64 → LegacyDec → Int64)
    (rate : LegacyDec) (addr : Address) (r : BTCDelegation) : Prop where
  staking : ∃ b stx stx' stakingTx slashingTx, r.stakingTx = some b ∧ r.slashingTx = some stx ∧
    lib.newBTCTxFromHex (Hex.encodeToString b) = .ok stakingTx ∧
    lib.newBTCSlashingTxFromHex (lib.toHexStr stx) = .ok stx' ∧ lib.toMsgTx stx' = .ok slashingTx ∧
    SpendsAndPays lib payTo minSlashed slashingTx stakingTx 0 rate addr
  unbonding : ∃ u b stx unbondingTx slashingTx, r.btcUndelegation = some u ∧ u.unbondingTx = some b ∧
    u.slashingTx = some stx ∧ lib.newBTCTxFromHex (Hex.encodeToString b) = .ok unbondingTx ∧
    lib.newBTCTxFromHex (lib.toHexStr stx) = .ok slashingTx ∧
    SpendsAndPays lib payTo minSlashed slashingTx unbondingTx 0 rate addr

variable {payTo : Address → Bytes} {minSlashed : Int64 → LegacyDec → Int64}

/-- What a member accepts keeps the rules. -/
theorem keepsRules_of_accepted (hsound : lib.CheckTransactionsSound payTo minSlashed)
    {ce : CovenantEmulator} {r : BTCDelegation} {d : Delegation} (hd : Converts lib r d)
    (a : Accepted lib ce (some d)) :
    KeepsRules lib payTo minSlashed a.params.slashingRate a.params.slashingAddress r := by
  have hchecks := a.checks
  have hundel := a.undelegation_eq
  rw [← Option.some.inj a.del_eq] at hchecks hundel
  obtain ⟨b, hb, hhex⟩ := hd.stakingTx
  obtain ⟨stx, hstx, hshex⟩ := hd.slashingTx
  obtain ⟨u, hu⟩ : ∃ u, r.btcUndelegation = some u := by
    cases hu : r.btcUndelegation with
    | none =>
      rw [hd.undelegation_none hu] at hundel
      cases hundel
    | some u => exact ⟨u, rfl⟩
  obtain ⟨ud, hud, hconv⟩ := hd.undelegation_some hu
  rw [hundel] at hud
  obtain rfl := Option.some.inj hud
  obtain ⟨ub, hub, huhex⟩ := hconv.unbondingTx
  obtain ⟨ustx, hustx, hushex⟩ := hconv.slashingTx
  have hslash := hsound _ _ _ _ _ _ _ _ _ hchecks.slashing_checked
  have hunb := hsound _ _ _ _ _ _ _ _ _ hchecks.unbondingSlashing_checked
  rw [hd.stakingOutputIdx] at hslash
  exact ⟨⟨b, stx, _, _, _, hb, hstx, hhex ▸ hchecks.staking_parses, hshex ▸ hchecks.slashing_parses,
      hchecks.slashing_decodes, hslash⟩,
    ⟨u, ub, ustx, _, _, hu, hub, hustx, huhex ▸ hchecks.unbonding_parses,
      hushex ▸ hchecks.unbondingSlashing_parses, hunb⟩⟩

/-- The rules are about the transactions alone. -/
theorem KeepsRules.of_bare {rate : LegacyDec} {addr : Address} {r r' : BTCDelegation}
    (h : KeepsRules lib payTo minSlashed rate addr r) (hbare : bareRecord r = bareRecord r') :
    KeepsRules lib payTo minSlashed rate addr r' := by
  simp only [bareRecord, BTCDelegation.mk.injEq] at hbare
  obtain ⟨_, _, _, _, _, hstaking, _, hslashing, _, _, hundel⟩ := hbare
  refine ⟨?_, ?_⟩
  · have hrule := h.staking
    rw [hstaking, hslashing] at hrule
    exact hrule
  · obtain ⟨u, b, stx, utx, ustx, hu, hb, hstx, hrest⟩ := h.unbonding
    rw [hu, Option.map_some] at hundel
    obtain ⟨u', hu', heq⟩ := Option.map_eq_some_iff.mp hundel.symm
    simp only [bareUndelegation, BTCUndelegation.mk.injEq] at heq
    exact ⟨u', b, stx, utx, ustx, hu', heq.1.trans hb, heq.2.1.trans hstx, hrest⟩

/-- The staking parameters that a member was told are those that the chain had then. -/
theorem params_of_mem {i : ι} {staking : BTCStakingParams}
    (h : CommitteeRun lib bc ce₀ c₀ ls ph c)
    (hmem : .event ⟨.btcStakingParams, .ok staking⟩ ∈ System.actions i ls) :
    ∃ ls₁ ls₂ ph₁ c₁, ls = ls₁ ++ ls₂ ∧ CommitteeRun lib bc ce₀ c₀ ls₁ ph₁ c₁ ∧
      c₁.stakingParams = staking := by
  obtain ⟨as, bs, heq⟩ := List.append_of_mem hmem
  obtain ⟨ls₁, ls₂, rfl, _, _⟩ := System.append_cons_of_actions heq
  obtain ⟨ph₁, c₁, _, hrun, ⟨_, hstaking⟩, _⟩ := System.Run.event (R := fun _ _ => True)
    (fun _ => trivial) (fun _ _ => trivial) (fun _ => trivial) (fun _ => trivial) h
  exact ⟨ls₁, _, ph₁, c₁, rfl, hrun, (hstaking staking rfl).symm⟩

/-- What was sent is a submission of a member that was shown the delegation without its
signature. -/
theorem submission_of_sentIn (henc : lib.KeyEncoding) {m : MsgAddCovenantSigs}
    (h : CommitteeRun lib bc ce₀ c₀ ls ph c) (hsent : SentIn ls m) :
    ∃ i, ∃ s : Submission lib (bc i) (System.actions i ls),
      s.message = m ∧ (ce₀ i).pk.x ∉ signers s.record := by
  obtain ⟨i, msgs, answer, hin, hm⟩ := hsent
  have hmem : Action.event (I := bbnClient) ⟨.reliablySendMsgs msgs, answer⟩ ∈ System.actions i ls :=
    List.mem_filterMap.mpr ⟨_, hin, if_pos rfl⟩
  obtain ⟨as, bs, heq⟩ := List.append_of_mem hmem
  have hrun := h.actions i
  refine ⟨i, ?_⟩
  rw [heq] at hrun ⊢
  obtain ⟨s, hs, hun⟩ := exists_submission hrun hm
  refine ⟨s, hs, ?_⟩
  obtain ⟨hpk, _⟩ := steps_of_inRound hrun s.in_round
  intro hsigner
  rw [← hpk, ← alreadySigned_iff henc (convertDelegationType_eq_ok_iff.mp s.converted), hun] at hsigner
  cases hsigner

/-- A submission names its sender's key and the delegation it is for. -/
theorem submission_pk (henc : lib.KeyEncoding) (h : CommitteeRun lib bc ce₀ c₀ ls ph c)
    {i : ι} (s : Submission lib (bc i) (System.actions i ls)) : s.message.pk = (ce₀ i).pk.x := by
  obtain ⟨hpk, _⟩ := steps_of_inRound (h.actions i) s.in_round
  obtain ⟨signer, _, hm⟩ := bind_eq_ok_iff.mp s.message_eq
  rw [← Except.ok.inj hm, ← hpk]
  exact henc.newBIP340PubKey_eq _

/-- A delegation that a member was shown stands on the chain, and has only grown. -/
theorem entry_of_shown (h : CommitteeRun lib bc ce₀ c₀ ls ph c) {i : ι}
    {status : BTCDelegationStatus} {pagination : PageRequest} {res : BTCDelegationsResponse}
    (hmem : .event (paged status pagination res) ∈ System.actions i ls) {r : BTCDelegation}
    (hr : r ∈ res.btcDelegations.elems) {hash : Hash} (hkey : recordHash lib r = some hash) :
    ∃ x ∈ c.dels.entries, x.hash = hash ∧ bareRecord x.record = bareRecord r ∧
      signers r ⊆ signers x.record := by
  obtain ⟨c₁, hres, hg⟩ := page_of_mem h hmem
  rw [hres] at hr
  obtain ⟨x₁, hx₁, rfl⟩ := mem_page hr
  obtain ⟨x, hx, hgrows⟩ := hg x₁ hx₁
  rw [x₁.keyed] at hkey
  exact ⟨x, hx, hgrows.hash_eq.trans (Option.some.inj hkey), hgrows.bare_eq, hgrows.signers_subset⟩

theorem keyed_of_submission {b : BabylonController} {as : List (Action bbnClient CovenantEmulator)}
    (s : Submission lib b as) {hash : Hash} (hhash : s.message.stakingTxHash = lib.hashString hash) :
    recordHash lib s.record = some hash := by
  have hconcerns := concerns_of_accepted s.converted s.accepted s.message_eq
  unfold Concerns at hconcerns
  obtain ⟨hash', hkey, heq⟩ := Option.map_eq_some_iff.mp hconcerns
  rw [hkey, lib.hashString_injective (heq.trans hhash)]

/-- What a member signed differs from what stands on the chain only in signatures. -/
theorem submission_bareRecord (h : CommitteeRun lib bc ce₀ c₀ ls ph c) {i : ι}
    (s : Submission lib (bc i) (System.actions i ls)) {x : Entry lib} (hx : x ∈ c.dels.entries)
    (hhash : s.message.stakingTxHash = lib.hashString x.hash) :
    bareRecord s.record = bareRecord x.record := by
  obtain ⟨y, hy, hkey, hbare, _⟩ := entry_of_shown h (s.in_round.event_mem s.page_mem) s.record_mem
    (keyed_of_submission s hhash)
  rw [← hbare, c.dels.eq_of_key hy hx hkey]

/-- The submission `s` of member `i` accounts for what stands under its key at `x`. -/
structure Accounts (payTo : Address → Bytes) (minSlashed : Int64 → LegacyDec → Int64)
    (lib : Lib) (bc : ι → BabylonController) (ce₀ : ι → CovenantEmulator) (c₀ : Ledger lib)
    (ls : Log ι) (x : Entry lib) (i : ι) (s : Submission lib (bc i) (System.actions i ls)) : Prop where
  slashing : ∀ sig ∈ x.record.covenantSigs, sig.covPk = (ce₀ i).pk.x →
    sig.adaptorSigs = s.message.slashingTxSigs
  unbonding : ∀ u, x.record.btcUndelegation = some u →
    (∀ sig ∈ u.covenantSlashingSigs, sig.covPk = (ce₀ i).pk.x →
      sig.adaptorSigs = s.message.slashingUnbondingTxSigs) ∧
    ∀ sig ∈ u.covenantUnbondingSigList, sig.pk = (ce₀ i).pk.x → sig.sig = s.message.unbondingTxSig
  same_terms : bareRecord s.record = bareRecord x.record
  /-- The member was shown the delegation without its signature. -/
  unsigned : (ce₀ i).pk.x ∉ signers s.record
  /-- The parameters were those of the chain at a moment of the run. -/
  in_force : ∃ ls₁ ls₂ ph₁ c₁, ls = ls₁ ++ ls₂ ∧ CommitteeRun lib bc ce₀ c₀ ls₁ ph₁ c₁ ∧
    c₁.stakingParams = s.staking
  rules : ∃ addr, lib.decodeAddress s.staking.slashingAddress (bc i).btcParams = .ok addr ∧
    KeepsRules lib payTo minSlashed s.staking.slashingRate addr x.record

/-- The message under a key is the only one of the journal. -/
theorem Filed.eq_of_pk {x : Entry lib} {ms : List MsgAddCovenantSigs} (h : Filed x ms)
    {m m' : MsgAddCovenantSigs} (hm : m ∈ ms) (hm' : m' ∈ ms) (hpk : m.pk = m'.pk) : m = m' :=
  List.inj_on_of_nodup_map h.distinct hm hm' hpk

theorem slashing_of_stakingParamsOf {b : BabylonController} {ckpt : BTCCheckpointParams}
    {staking : BTCStakingParams} {p : StakingParams} (h : stakingParamsOf lib b ckpt staking = .ok p) :
    lib.decodeAddress staking.slashingAddress b.btcParams = .ok p.slashingAddress ∧
      p.slashingRate = staking.slashingRate := by
  obtain ⟨pks, _, h⟩ := bind_eq_ok_iff.mp h
  obtain ⟨addr, haddr, h⟩ := bind_eq_ok_iff.mp h
  cases h
  exact ⟨haddr, rfl⟩

/-- What a member submitted keeps the rules of the parameters that it was told. -/
theorem rules_of_submission (hsound : lib.CheckTransactionsSound payTo minSlashed)
    {b : BabylonController} {as : List (Action bbnClient CovenantEmulator)} (s : Submission lib b as) :
    ∃ addr, lib.decodeAddress s.staking.slashingAddress b.btcParams = .ok addr ∧
      KeepsRules lib payTo minSlashed s.staking.slashingRate addr s.record := by
  obtain ⟨haddr, hrate⟩ := slashing_of_stakingParamsOf s.params_eq
  have hparams : s.accepted.params = s.params := Option.some.inj s.accepted.params_eq.symm
  have hrules := keepsRules_of_accepted hsound (convertDelegationType_eq_ok_iff.mp s.converted)
    s.accepted
  rw [hparams, hrate] at hrules
  exact ⟨_, haddr, hrules⟩

theorem accounts_of_submission (henc : lib.KeyEncoding)
    (hsound : lib.CheckTransactionsSound payTo minSlashed) (h : CommitteeRun lib bc ce₀ c₀ ls ph c)
    {x : Entry lib} (hx : x ∈ c.dels.entries) {ms : List MsgAddCovenantSigs} (hfiled : Filed x ms)
    {i : ι} (s : Submission lib (bc i) (System.actions i ls)) (hs : s.message ∈ ms)
    (hun : (ce₀ i).pk.x ∉ signers s.record) :
    Accounts payTo minSlashed lib bc ce₀ c₀ ls x i s := by
  have hpk := submission_pk henc h s
  have hbare := submission_bareRecord h s hx (hfiled.concerns _ hs)
  have honly : ∀ m ∈ ms, m.pk = (ce₀ i).pk.x → m = s.message := by
    intro m hm hkey
    exact hfiled.eq_of_pk hm hs (hkey.trans hpk.symm)
  refine ⟨?_, ?_, hbare, hun, params_of_mem h (s.in_round.event_mem s.fetched.2), ?_⟩
  · intro sig hsig hkey
    rw [hfiled.slashing] at hsig
    obtain ⟨m, hm, rfl⟩ := List.mem_map.mp hsig
    rw [honly m hm hkey]
  · intro u hu
    obtain ⟨hslash, hunb⟩ := hfiled.unbonding u hu
    constructor
    · intro sig hsig hkey
      rw [hslash] at hsig
      obtain ⟨m, hm, rfl⟩ := List.mem_map.mp hsig
      rw [honly m hm hkey]
    · intro sig hsig hkey
      rw [hunb] at hsig
      obtain ⟨m, hm, rfl⟩ := List.mem_map.mp hsig
      rw [honly m hm hkey]
  · obtain ⟨addr, haddr, hrules⟩ := rules_of_submission hsound s
    exact ⟨addr, haddr, hrules.of_bare hbare⟩

/-- The x-only keys of the members. -/
def memberKeys (ce₀ : ι → CovenantEmulator) (key : BIP340PubKey) : Prop := ∃ i, (ce₀ i).pk.x = key

/-- **Accountability.** A signature of a member that stands at a delegation was sent by that
member, in a round that checked what the record still says. -/
theorem recorded_is_accounted (lib : Lib) (henc : lib.KeyEncoding) (payTo : Address → Bytes)
    (minSlashed : Int64 → LegacyDec → Int64) (hsound : lib.CheckTransactionsSound payTo minSlashed)
    (bc : ι → BabylonController) (ce₀ : ι → CovenantEmulator) (c₀ : Ledger lib)
    (h₀ : Unused (memberKeys ce₀) c₀) (ls : Log ι)
    (ph : ι → Phase bbnClient Halt CovenantEmulator) (c : Ledger lib)
    (h : GuardedRun (memberKeys ce₀) lib bc ce₀ c₀ ls ph c) (x : Entry lib)
    (hx : x ∈ c.dels.entries) (key : BIP340PubKey) (hsigner : key ∈ signers x.record)
    (hkey : memberKeys ce₀ key) :
    ∃ i, (ce₀ i).pk.x = key ∧ ∃ s : Submission lib (bc i) (System.actions i ls),
      Accounts payTo minSlashed lib bc ce₀ c₀ ls x i s := by
  obtain ⟨ms, hfiled, hsent⟩ := (books_of_run h₀ h).filed x hx
  rw [hfiled.signers_eq] at hsigner
  obtain ⟨m, hm, rfl⟩ := List.mem_map.mp hsigner
  obtain ⟨i, s, rfl, hun⟩ := submission_of_sentIn henc h.committee (hsent m hm hkey)
  exact ⟨i, (submission_pk henc h.committee s).symm, s,
    accounts_of_submission henc hsound h.committee hx hfiled s hm hun⟩

/-- The signature of the first member of the sample committee, once it is included. -/
theorem recorded_is_accounted_sample :
    ∃ ph, GuardedRun (memberKeys fun b => startWith (memberKey b)) sampleLib
        (fun _ => sampleController) (fun b => startWith (memberKey b)) (sampleLedger 2 []) includedLog
        ph includedLedger ∧
      ∃ i, (startWith (memberKey i)).pk.x = (memberKey true).x ∧
        ∃ s : Submission sampleLib sampleController (System.actions i includedLog),
          Accounts Reference.payTo Reference.minSlashed sampleLib (fun _ => sampleController)
            (fun b => startWith (memberKey b)) (sampleLedger 2 []) includedLog
            includedEntry i s := by
  obtain ⟨ph, h⟩ := run_includedLog (memberKeys fun b => startWith (memberKey b))
  exact ⟨ph, h, recorded_is_accounted sampleLib sampleLib_keyEncoding _ _
    sampleLib_checkTransactionsSound _ _ _ (unused_sampleLedger _) includedLog ph includedLedger h
    includedEntry (by simp [entries_includedLedger]) (memberKey true).x signers_includedEntry
    ⟨true, rfl⟩⟩

end Covenant.Provenance
