import Covenant.Provenance
import Covenant.Stalls
import Mathlib.Data.List.Perm.Subperm

/-! How a delegation gets its quorum. On a chain that loses nothing of what is sent, a member
that has worked off a page on which everything passes is a signer of each delegation on it
(`signer_of_attendance`). Once as many members have done so as the quorum asks for, whoever
is shown the delegation finds the quorum reached (`quorum_reached`). -/

namespace Covenant.Quorum
open Outcome Lists Interaction Reactor Bitcoin Covenant.Types Emulator Signing Loop Controller Records
  Chain Gate Runs Ticks Batches Member Committee Agreement Provenance Stalls Reference

variable {lib : Lib}

/-! ## A chain that loses nothing -/

/-- What is on its way at `c` still is at `c'`, or stands at the delegation that it names. -/
def Delivers (c c' : Ledger lib) : Prop :=
  ∀ msgs ∈ c.mempool, msgs ∈ c'.mempool ∨ ∀ m ∈ msgs, ∀ x ∈ c.dels.entries,
    lib.hashString x.hash = m.stakingTxHash → ∀ y ∈ c'.dels.entries, y.hash = x.hash →
      m.pk ∈ signers y.record

section

variable {keys : BIP340PubKey → Prop} {c c₁ c₂ c₃ c' : Ledger lib}

theorem delivers_of_mempool (h : c.mempool ⊆ c'.mempool) : Delivers c c' :=
  fun _ hmsgs => Or.inl (h hmsgs)

/-- A transaction that is included stands at the delegations. -/
theorem delivers_deliver {before after : List (List MsgAddCovenantSigs)}
    {msgs : List MsgAddCovenantSigs} (h : c.mempool = before ++ msgs :: after) :
    Delivers c { c.rewrite (Entry.addAll msgs) (Entry.grows_addAll msgs) with
      mempool := before ++ after } := by
  intro msgs' hmsgs'
  rw [h] at hmsgs'
  rcases List.mem_append.mp hmsgs' with hin | hin
  · exact Or.inl (List.mem_append_left _ hin)
  · rcases List.mem_cons.mp hin with rfl | hin
    · right
      intro m hm x hx hhash y hy hxy
      obtain ⟨z, hz, rfl⟩ := List.mem_map.mp hy
      rw [(Entry.grows_addAll msgs' z).hash_eq] at hxy
      rw [c.dels.eq_of_key hz hx hxy]
      exact mem_signers_addAll hm hhash
    · exact Or.inl (List.mem_append_right _ hin)

/-- Nothing is lost but by expiry. -/
theorem delivers_or_expires (h : Guarded keys c c') :
    Delivers c c' ∨ ∃ before after msgs, c.mempool = before ++ msgs :: after ∧
      c' = { c with mempool := before ++ after } := by
  cases h with
  | deliver before after msgs hpool => exact Or.inl (delivers_deliver hpool)
  | expire before after msgs hpool => exact Or.inr ⟨before, after, msgs, hpool, rfl⟩
  | _ => exact Or.inl (delivers_of_mempool (List.Subset.refl _))

/-- The chain `c` later, when nothing has been lost. -/
structure Later (c c' : Ledger lib) : Prop where
  grows : c.Grows c'
  delivers : Delivers c c'

theorem Later.refl (c : Ledger lib) : Later c c :=
  ⟨Ledger.Grows.refl c, delivers_of_mempool (List.Subset.refl _)⟩

theorem Later.trans (h : Later c₁ c₂) (h' : Later c₂ c₃) : Later c₁ c₃ where
  grows := h.grows.trans h'.grows
  delivers msgs hmsgs := by
    rcases h.delivers msgs hmsgs with hin | hstands
    · refine (h'.delivers msgs hin).imp id fun hstands m hm x hx hhash z hz hxz => ?_
      obtain ⟨y, hy, hxy⟩ := h.grows x hx
      exact hstands m hm y hy (hxy.hash_eq ▸ hhash) z hz (hxz.trans hxy.hash_eq.symm)
    · right
      intro m hm x hx hhash z hz hxz
      obtain ⟨y, hy, hxy⟩ := h.grows x hx
      have hyz := Registry.Grows.of_key (fun h => h.hash_eq) h'.grows hy hz
        (hxy.hash_eq.trans hxz.symm)
      exact hyz.signers_subset (hstands m hm x hx hhash y hy hxy.hash_eq)

/-- The moves of such a chain on which, moreover, nothing that is sent is lost. -/
def Reliable (keys : BIP340PubKey → Prop) (c c' : Ledger lib) : Prop :=
  Guarded keys c c' ∧ Delivers c c'

theorem reliable_deliver (c : Ledger lib) (before after : List (List MsgAddCovenantSigs))
    (msgs : List MsgAddCovenantSigs) (h : c.mempool = before ++ msgs :: after) :
    Reliable keys c { c.rewrite (Entry.addAll msgs) (Entry.grows_addAll msgs) with
      mempool := before ++ after } :=
  ⟨.deliver c before after msgs h trivial, delivers_deliver h⟩

theorem later_of_reliable (h : Reliable keys c c') : Later c c' := ⟨grows_of_evolves h.1.evolves, h.2⟩

theorem later_of_responds {e : Event bbnClient} (h : Responds c e c') : Later c c' := by
  refine ⟨grows_of_responds h, delivers_of_mempool ?_⟩
  obtain ⟨call, a⟩ := e
  cases call with
  | btcCheckpointParams =>
    obtain ⟨rfl, _⟩ := h
    exact List.Subset.refl _
  | btcStakingParams =>
    obtain ⟨rfl, _⟩ := h
    exact List.Subset.refl _
  | btcDelegations status pagination =>
    obtain ⟨rfl, _⟩ := h
    exact List.Subset.refl _
  | reliablySendMsgs msgs =>
    obtain rfl := h
    exact List.subset_append_left _ _
  | enter params btcDels =>
    obtain rfl := h
    exact List.Subset.refl _

end

/-! ## A page that is worked off -/

section

variable {bc : BabylonController} {ce ce' : CovenantEmulator} {t : RpcTrace}

theorem event_of_sends {msgs : List MsgAddCovenantSigs} (h : msgs ∈ sends t) :
    ∃ u₁ answer u₂, t = u₁ ++ ⟨.reliablySendMsgs msgs, answer⟩ :: u₂ := by
  obtain ⟨⟨call, answer⟩, he, hsend⟩ := List.mem_filterMap.mp h
  cases call with
  | reliablySendMsgs msgs' =>
    cases hsend
    obtain ⟨u₁, u₂, heq⟩ := List.append_of_mem he
    exact ⟨u₁, answer, u₂, heq⟩
  | _ => cases hsend

/-- A tick has one page at most. -/
theorem pages_of_whole (h : Prog.Steps (memberTick lib bc ce) t (.ret ce')) : (pages t).length ≤ 1 := by
  obtain ⟨s, hs, hcar⟩ := Prog.steps_interp_ret h
  have hlen : (s.filterMap delegationsOf).length = (pages t).length :=
    (hcar.filterMap pages_of_call).length_eq
  rw [← hlen]
  rcases whole_tick hs with ⟨hdels, _⟩ | ⟨errs, p, dels, batches, u, rfl, _, hsent⟩
  · simp [hdels]
  · have hnone : u.filterMap delegationsOf = [] := by
      apply List.filterMap_eq_nil_iff.mpr
      intro e he
      cases hsent.events e he <;> rfl
    have hone : (queried ce dels :: u).filterMap delegationsOf = [dels] := by
      rw [List.filterMap_cons_some (rfl : delegationsOf (queried ce dels) = some dels), hnone]
    rw [List.filterMap_append, filterMap_failures (fun _ => rfl), hone]
    exact Nat.le_refl 1

/-- A whole tick that was shown something, worked off. -/
theorem works_of_shown (h : Prog.Steps (memberTick lib bc ce) t (.ret ce')) {r : BTCDelegation}
    (hr : r ∈ snapshot t) :
    ∃ t₁ t₂ res p batches, t = t₁ ++ paged .pending ⟨none, ce.config.delegationLimit⟩ res :: t₂ ∧
      snapshot t = res.btcDelegations.elems ∧ Works lib bc ce t₁ t₂ res p batches := by
  rcases whole_memberTick h with ⟨hnone, _⟩ | ⟨t₁, t₂, res, p, batches, heq, hw⟩
  · unfold snapshot at hr
    rw [hnone] at hr
    cases hr
  · refine ⟨t₁, t₂, res, p, batches, heq, ?_, hw⟩
    have hmem : res ∈ pages t := by
      rw [heq]
      exact List.mem_filterMap.mpr ⟨_, List.mem_append_right _ (List.mem_cons_self ..), rfl⟩
    obtain ⟨a, ha⟩ := List.length_eq_one_iff.mp
      (Nat.le_antisymm (pages_of_whole h) (List.length_pos_of_mem hmem))
    rw [ha, List.mem_singleton] at hmem
    unfold snapshot
    rw [ha, hmem]
    exact List.flatMap_singleton _ _

/-- When all that the member has not signed passes, a message is sent for each of it. -/
theorem signed_or_sent (henc : lib.KeyEncoding) {t₁ t₂ : RpcTrace} {res : BTCDelegationsResponse}
    {p : StakingParams} {batches : List (List (Option Delegation))}
    (hw : Works lib bc ce t₁ t₂ res p batches)
    (hpass : ∀ r ∈ res.btcDelegations.elems, ∀ d, convertDelegationType lib r = .ok d →
      alreadySigned lib ce d = false → Passes lib (withParams ce p) (some d))
    {r : BTCDelegation} (hr : r ∈ res.btcDelegations.elems) :
    ce.pk.x ∈ signers r ∨ ∃ msgs ∈ sends t₂, ∃ m ∈ msgs, Concerns lib m r ∧ m.pk = ce.pk.x := by
  obtain ⟨ds, hds, hwork⟩ := hw.batched
  have hlen : (ds.map some).length < 2 ^ 63 := by
    rw [List.length_map, ← hds.length_eq]
    exact res.btcDelegations.len_lt
  obtain ⟨ds', heq, hflat⟩ := workList_flatten hlen hwork
  obtain rfl : ds = ds' := List.map_injective_iff.mpr (fun _ _ h => Option.some.inj h) heq
  obtain ⟨d, hd, hrd⟩ := exists_right_of_mem hds hr
  cases hun : alreadySigned lib ce d with
  | true => exact Or.inl ((alreadySigned_iff henc (convertDelegationType_eq_ok_iff.mp hrd)).mp hun)
  | false =>
    right
    have hmem : some d ∈ batches.flatten := by
      rw [hflat]
      exact List.mem_map_of_mem (List.mem_filter.mpr ⟨hd, congrArg (!·) hun⟩)
    obtain ⟨b, hb, hdb⟩ := List.mem_flatten.mp hmem
    have hall : ∀ o ∈ b, Passes lib (withParams ce p) o := by
      intro o ho
      have ho' : o ∈ batches.flatten := List.mem_flatten.mpr ⟨b, hb, ho⟩
      rw [hflat] at ho'
      obtain ⟨d', hd', rfl⟩ := List.mem_map.mp ho'
      obtain ⟨hin, hun'⟩ := workList_mem hlen hwork hb ho
      obtain ⟨r', hr', hrd'⟩ := exists_right_of_mem hds.flip (List.mem_of_mem_filter hd')
      exact hpass r' hr' d' hrd' hun'
    obtain ⟨l, hl⟩ := (collectBatch_succeeds_iff ..).mpr ⟨List.ne_nil_of_mem hdb, hall⟩
    have hsubmitted : l ∈ batches.filterMap (collected lib (withParams ce p)) :=
      List.mem_filterMap.mpr ⟨b, hb, collected_eq_some_iff.mpr hl⟩
    obtain ⟨msgs, hmsgs, hm⟩ := exists_right_of_mem hw.sent hsubmitted
    obtain ⟨s, hs, hsigned⟩ := exists_right_of_mem ((collectBatch_eq_some_iff ..).mp hl).2 hdb
    obtain ⟨m, hmem, hmsg⟩ := exists_right_of_mem (mapM_eq_ok_iff.mp hm) hs
    have hsigns : Signs lib bc (withParams ce p) r m := ⟨d, s, hrd, hun, hsigned, hmsg⟩
    have hmpk : m.pk = (withParams ce p).pk.x := pk_of_signs henc hsigned hmsg
    exact ⟨msgs, hmsgs, m, hmem, concerns_of_signs hsigns, hmpk⟩

end

/-! ## Members -/

/-- A tick of the member with the actions `as`, carried out in full, that was shown the
delegation `hash`, and under whose parameters all that it was shown and had not signed
passes. -/
structure Attendance (lib : Lib) (bc : BabylonController)
    (as : List (Action bbnClient CovenantEmulator)) (hash : Hash) where
  emulator : CovenantEmulator
  calls : RpcTrace
  emulator' : CovenantEmulator
  record : BTCDelegation
  in_full : ∃ as' bs, as = as' ++ .tick emulator :: calls.map .event ++ .done emulator' :: bs
  shown : record ∈ snapshot calls
  keyed : recordHash lib record = some hash
  passes : ∀ ckpt staking p, ⟨.btcCheckpointParams, .ok ckpt⟩ ∈ calls →
    ⟨.btcStakingParams, .ok staking⟩ ∈ calls → stakingParamsOf lib bc ckpt staking = .ok p →
    ∀ r ∈ snapshot calls, ∀ d, convertDelegationType lib r = .ok d →
      alreadySigned lib emulator d = false → Passes lib (withParams emulator p) (some d)

section

variable {ι : Type} [DecidableEq ι] {keys : BIP340PubKey → Prop} {bc : ι → BabylonController}
  {ce₀ : ι → CovenantEmulator} {c₀ c : Ledger lib} {ls : Log ι} {ph : ι → Phase bbnClient Halt CovenantEmulator}

/-- Runs of a committee on such a chain. -/
abbrev ReliableRun (keys : BIP340PubKey → Prop) (lib : Lib) (bc : ι → BabylonController)
    (ce₀ : ι → CovenantEmulator) (c₀ : Ledger lib) (ls : Log ι)
    (ph : ι → Phase bbnClient Halt CovenantEmulator) (c : Ledger lib) : Prop :=
  System.Run ((babylon lib ι).within (Reliable keys)) (fun i => memberTick lib (bc i))
    (fun i => .select (ce₀ i)) c₀ ls ph c

theorem ReliableRun.guarded (h : ReliableRun keys lib bc ce₀ c₀ ls ph c) :
    GuardedRun keys lib bc ce₀ c₀ ls ph c := by
  have hwithin : System.Run (((babylon lib ι).within (Guarded keys)).within (Reliable keys))
    (fun i => memberTick lib (bc i)) (fun i => .select (ce₀ i)) c₀ ls ph c := h
  exact hwithin.of_within fun hs => hs.1

/-- The signatures on the chain stay a journal. -/
theorem filed_of_run (h₀ : ∀ x ∈ c₀.dels.entries, ∃ ms, Filed x ms)
    (h : GuardedRun keys lib bc ce₀ c₀ ls ph c) : ∀ x ∈ c.dels.entries, ∃ ms, Filed x ms := by
  have hbooks : Books keys (fun _ => True) c := by
    refine h.environment (P := fun _ c => Books keys (fun _ => True) c) ?_ ?_ ?_
    · refine ⟨fun _ _ _ _ => trivial, fun x hx => ?_⟩
      obtain ⟨ms, hms⟩ := h₀ x hx
      exact ⟨ms, hms, fun _ _ _ => trivial⟩
    · intro _ _ _ hbooks hs
      exact hbooks.guarded hs
    · intro _ _ a _ _ hbooks hr
      cases a with
      | event e => exact hbooks.responds hr fun _ _ _ _ => trivial
      | _ => exact Eq.mpr (congrArg _ hr) hbooks
  intro x hx
  obtain ⟨ms, hms, _⟩ := hbooks.filed x hx
  exact ⟨ms, hms⟩

/-- Along a run nothing is lost. -/
theorem ReliableRun.event {ks : Log ι} {i : ι} {e : Event bbnClient}
    (h : ReliableRun keys lib bc ce₀ c₀ (ls ++ .act i (.event e) :: ks) ph c) :
    ∃ ph₁ c₁ c₂, ReliableRun keys lib bc ce₀ c₀ ls ph₁ c₁ ∧ Responds c₁ e c₂ ∧ Later c₂ c :=
  System.Run.event Later.refl (fun h₁ h₂ => h₁.trans h₂) later_of_reliable later_of_responds h

/-- What was sent for a delegation that a page showed before is included in the end. -/
theorem recorded_of_sent (h : ReliableRun keys lib bc ce₀ c₀ ls ph c) (hpool : c.mempool = []) {i : ι}
    {as bs : List (Action bbnClient CovenantEmulator)} {msgs : List MsgAddCovenantSigs}
    {answer : Except GoError RelayerTxResponse}
    (hsent : System.actions i ls = as ++ .event ⟨.reliablySendMsgs msgs, answer⟩ :: bs)
    {status : BTCDelegationStatus} {pagination : PageRequest} {res : BTCDelegationsResponse}
    (hpage : .event (paged status pagination res) ∈ as) {r : BTCDelegation}
    (hr : r ∈ res.btcDelegations.elems) {hash : Hash} (hkey : recordHash lib r = some hash)
    {m : MsgAddCovenantSigs} (hm : m ∈ msgs) (hconcerns : Concerns lib m r) {y : Entry lib}
    (hy : y ∈ c.dels.entries) (hhash : y.hash = hash) : m.pk ∈ signers y.record := by
  obtain ⟨ls₁, ls₂, rfl, rfl, _⟩ := System.append_cons_of_actions hsent
  obtain ⟨_, c₁, c₂, hrun, rfl, hlater⟩ := ReliableRun.event h
  obtain ⟨x, hx, rfl, _⟩ := entry_of_shown hrun.guarded.committee hpage hr hkey
  have hname : lib.hashString x.hash = m.stakingTxHash := by
    unfold Concerns at hconcerns
    rw [hkey] at hconcerns
    exact Option.some.inj hconcerns
  rcases hlater.delivers msgs (List.mem_append_right _ (List.mem_singleton_self _)) with hin | hstands
  · rw [hpool] at hin
    cases hin
  · exact hstands m hm x hx hname y hy hhash

/-- **A member that attended to a delegation** is one of its signers. -/
theorem signer_of_attendance (henc : lib.KeyEncoding) (h : ReliableRun keys lib bc ce₀ c₀ ls ph c)
    (hpool : c.mempool = []) {i : ι} {hash : Hash}
    (a : Attendance lib (bc i) (System.actions i ls) hash) {y : Entry lib} (hy : y ∈ c.dels.entries)
    (hhash : y.hash = hash) : (ce₀ i).pk.x ∈ signers y.record := by
  obtain ⟨ce, t, ce', r, ⟨as', bs, has⟩, hshown, hkey, hpasses⟩ := a
  have hi := h.actions i
  rw [has] at hi
  have hpk : ce.pk = (ce₀ i).pk := (tick_keeps hi (by simp)).1
  rw [← hpk]
  obtain ⟨t₁, t₂, res, p, batches, rfl, hsnap, hw⟩ := works_of_shown (Reactor.Run.done hi) hshown
  rw [hsnap] at hshown hpasses
  obtain ⟨ckpt, staking, hckpt, hstaking, hp⟩ := hw.params
  have hpass := hpasses ckpt staking p (by simp [hckpt]) (by simp [hstaking]) hp
  rcases signed_or_sent henc hw hpass hshown with hsigned | ⟨msgs, hmsgs, m, hm, hconcerns, hmpk⟩
  · have hpage : .event (paged .pending ⟨none, ce.config.delegationLimit⟩ res) ∈
        System.actions i ls := by
      rw [has]
      simp
    obtain ⟨x, hx, hxhash, _, hsub⟩ := entry_of_shown h.guarded.committee hpage hshown hkey
    rw [c.dels.eq_of_key hy hx (hhash.trans hxhash.symm)]
    exact hsub hsigned
  · obtain ⟨u₁, answer, u₂, rfl⟩ := event_of_sends hmsgs
    let before := t₁ ++ paged .pending ⟨none, ce.config.delegationLimit⟩ res :: u₁
    have hsent : System.actions i ls = (as' ++ .tick ce :: before.map .event) ++
        .event ⟨.reliablySendMsgs msgs, answer⟩ :: (u₂.map .event ++ .done ce' :: bs) := by
      rw [has]
      simp [before]
    have hpage : .event (paged .pending ⟨none, ce.config.delegationLimit⟩ res) ∈
        as' ++ .tick ce :: before.map .event := by
      simp [before]
    rw [← hmpk]
    exact recorded_of_sent h hpool hsent hpage hshown hkey hm hconcerns hy hhash

/-- **The quorum is reached.** -/
theorem quorum_reached (keys : BIP340PubKey → Prop) (lib : Lib) (henc : lib.KeyEncoding) (bc : ι → BabylonController)
    (ce₀ : ι → CovenantEmulator) (c₀ : Ledger lib)
    (h₀ : ∀ x ∈ c₀.dels.entries, ∃ ms, Filed x ms) (ls : Log ι)
    (ph : ι → Phase bbnClient Halt CovenantEmulator) (c : Ledger lib)
    (h : ReliableRun keys lib bc ce₀ c₀ ls ph c) (hpool : c.mempool = []) (hash : Hash) (members : List ι)
    (hkeys : (members.map fun i => (ce₀ i).pk.x).Nodup)
    (attended : ∀ i ∈ members, Attendance lib (bc i) (System.actions i ls) hash) (y : Entry lib)
    (hy : y ∈ c.dels.entries) (hhash : y.hash = hash) (d : Delegation)
    (hd : convertDelegationType lib y.record = .ok d) (ud : Undelegation)
    (hud : d.btcUndelegation = some ud) (hlen : (signers y.record).length < 2 ^ 32) (quorum : UInt32)
    (hquorum : quorum.toNat ≤ members.length) : d.hasCovenantQuorum quorum = .ok true := by
  have hsub : (members.map fun i => (ce₀ i).pk.x) ⊆ signers y.record := by
    intro k hk
    obtain ⟨i, hi, rfl⟩ := List.mem_map.mp hk
    exact signer_of_attendance henc h hpool (attended i hi) hy hhash
  have hcount : members.length ≤ (signers y.record).length := by
    have hle := (List.subperm_of_subset hkeys hsub).length_le
    rwa [List.length_map] at hle
  obtain ⟨ms, hms⟩ := filed_of_run h₀ h.guarded y hy
  have hcounts := countsSigners_of_filed hms (convertDelegationType_eq_ok_iff.mp hd) hud hlen
  rw [hcounts.quorum, decide_eq_true (Nat.le_trans hquorum hcount)]

end

/-! ### Two members and a quorum of two -/

/-- The delegation can be shown to a member. -/
def Shown (x : Entry sampleLib) : Prop :=
  ∃ d ud, Converts sampleLib x.record d ∧ d.btcUndelegation = some ud

theorem shown_addSigs {x : Entry sampleLib} (h : Shown x) (m : MsgAddCovenantSigs) :
    Shown (x.addSigs m) := by
  obtain ⟨d, ud, hd, hud⟩ := h
  unfold Entry.addSigs
  split
  · obtain ⟨u, hu⟩ : ∃ u, x.record.btcUndelegation = some u := by
      cases hu : x.record.btcUndelegation with
      | none =>
        rw [hd.undelegation_none hu] at hud
        cases hud
      | some u => exact ⟨u, rfl⟩
    obtain ⟨ud', _, hconv⟩ := hd.undelegation_some hu
    refine ⟨{ d with
      covenantSigs := d.covenantSigs ++ [⟨⟨m.pk, false⟩, m.slashingTxSigs⟩]
      btcUndelegation := some { ud' with
        covenantSlashingSigs := ud'.covenantSlashingSigs ++ [⟨⟨m.pk, false⟩, m.slashingUnbondingTxSigs⟩]
        covenantUnbondingSigs := ud'.covenantUnbondingSigs ++ [⟨⟨m.pk, false⟩, ⟨m.unbondingTxSig⟩⟩] } },
      _, ⟨hd.stakingTx, hd.slashingTx, ?_, ?_, hd.fpBtcPks, hd.btcPk, hd.heights, hd.totalSat,
        hd.stakingOutputIdx, hd.unbondingTime⟩, rfl⟩
    · exact List.rel_append hd.covenantSigs (.cons ⟨rfl, rfl⟩ .nil)
    · simp only [addCovenantSigs, hu, Option.map_some]
      exact .some ⟨hconv.unbondingTx, hconv.slashingTx,
        List.rel_append hconv.slashingSigs (.cons ⟨rfl, rfl⟩ .nil),
        List.rel_append hconv.unbondingSigs (.cons ⟨rfl, rfl⟩ .nil), hconv.delegatorSig⟩
  · exact ⟨d, ud, hd, hud⟩

theorem shown_addAll {x : Entry sampleLib} (h : Shown x) (msgs : List MsgAddCovenantSigs) :
    Shown (x.addAll msgs) := by
  unfold Entry.addAll
  induction msgs generalizing x with
  | nil => exact h
  | cons m msgs ih => exact ih (shown_addSigs h m)

/-- The signers that are added are some of those of the messages. -/
theorem signers_addAll (x : Entry lib) (msgs : List MsgAddCovenantSigs) :
    ∃ keys, keys.Sublist (msgs.map (·.pk)) ∧
      signers (x.addAll msgs).record = signers x.record ++ keys := by
  unfold Entry.addAll
  induction msgs generalizing x with
  | nil => exact ⟨[], .slnil, (List.append_nil _).symm⟩
  | cons m msgs ih =>
    obtain ⟨keys, hsub, hkeys⟩ := ih (x.addSigs m)
    by_cases hcond : lib.hashString x.hash = m.stakingTxHash ∧ m.pk ∉ signers x.record
    · have hadd : signers (x.addSigs m).record = signers x.record ++ [m.pk] := by
        rw [Entry.addSigs, if_pos hcond]
        exact signers_addCovenantSigs m x.record
      rw [hadd, List.append_assoc] at hkeys
      exact ⟨m.pk :: keys, hsub.cons_cons _, hkeys⟩
    · have hsame : x.addSigs m = x := if_neg hcond
      rw [hsame] at hkeys
      refine ⟨keys, hsub.cons _, ?_⟩
      rw [List.foldl_cons, hsame]
      exact hkeys

/-- A tick of each member, after which both transactions are included. -/
def quorumLog : Log Bool := tickLog true 2 ++ tickLog false 2 ++ [.env] ++ [.env]

def signedEntry : Entry sampleLib :=
  (sampleEntry.addAll [msgWith (memberKey true) 2]).addAll [msgWith (memberKey false) 2]

theorem run_quorumLog (keys : BIP340PubKey → Prop) : ∃ ph c, ReliableRun keys sampleLib (fun _ => sampleController)
    (fun b => startWith (memberKey b)) (sampleLedger 2 []) quorumLog ph c ∧
      c.mempool = [] ∧ signedEntry ∈ c.dels.entries := by
  have hinit : ReliableRun keys sampleLib (fun _ => sampleController)
      (fun b => startWith (memberKey b)) (sampleLedger 2 []) [] _ (sampleLedger 2 []) := .init
  have hfirst := hinit.complete (i := true) rfl (steps_rpcTick (memberKey true) (by decide))
    (answers_rpcTick true (memberKey true) 2 []).within
  have hsecond := hfirst.complete (i := false) rfl (steps_rpcTick (memberKey false) (by decide))
    (answers_rpcTick false (memberKey false) 2 [[msgWith (memberKey true) 2]]).within
  have hthird := hsecond.env
    (reliable_deliver _ [] [[msgWith (memberKey false) 2]] [msgWith (memberKey true) 2] rfl)
  have hlast := hthird.env (reliable_deliver _ [] [] [msgWith (memberKey false) 2] rfl)
  have hentry : signedEntry ∈ ([sampleEntry].map (Entry.addAll [msgWith (memberKey true) 2])).map
      (Entry.addAll [msgWith (memberKey false) 2]) :=
    List.mem_map_of_mem (List.mem_map_of_mem (List.mem_singleton_self _))
  exact ⟨_, _, hlast, rfl, hentry⟩

def sampleAttendance (b : Bool) :
    Attendance sampleLib sampleController (System.actions b quorumLog) stakingHash where
  emulator := startWith (memberKey b)
  calls := rpcTick (memberKey b) 2
  emulator' := emulatorWith (memberKey b) (paramsWith 2)
  record := sampleRecord
  in_full := by
    cases b with
    | true => exact ⟨[], [], rfl⟩
    | false => exact ⟨[], [], rfl⟩
  shown := List.mem_singleton_self _
  keyed := sampleEntry.keyed
  passes ckpt staking p hckpt hstaking hp r hr d hd _ := by
    have hckpt' : ckpt = (sampleLedger 2 []).ckptParams := by
      simpa [rpcTick] using hckpt
    have hstaking' : staking = (sampleLedger 2 []).stakingParams := by
      simpa [rpcTick] using hstaking
    subst hckpt' hstaking'
    cases hp
    rw [List.mem_singleton.mp hr, convertDelegationType_eq_ok_iff.mpr converts_sampleRecord] at hd
    cases hd
    exact ⟨acceptedWith (memberKey b) (paramsWith 2) _ _ _ (likeSample_paramsWith (by decide)) honestPair⟩

theorem quorum_reached_sample :
    ∃ d, convertDelegationType sampleLib signedEntry.record = .ok d ∧
      d.hasCovenantQuorum 2 = .ok true := by
  obtain ⟨ph, c, h, hpool, hy⟩ := run_quorumLog fun _ => False
  obtain ⟨d, ud, hd, hud⟩ : Shown signedEntry :=
    shown_addAll (shown_addAll ⟨_, _, converts_sampleRecord, rfl⟩ _) _
  have hconv := convertDelegationType_eq_ok_iff.mpr hd
  refine ⟨d, hconv, quorum_reached _ sampleLib sampleLib_keyEncoding _ _ _ ?_ quorumLog ph c h hpool
    stakingHash [true, false] (by decide) (fun b _ => sampleAttendance b) signedEntry hy ?_ d hconv ud
    hud ?_ 2 (by decide)⟩
  · intro x hx
    rw [List.mem_singleton.mp hx]
    exact ⟨[], filed_sampleEntry⟩
  · unfold signedEntry
    rw [(Entry.grows_addAll _ _).hash_eq, (Entry.grows_addAll _ _).hash_eq]
    rfl
  · obtain ⟨ks, hks, hfirst⟩ := signers_addAll sampleEntry [msgWith (memberKey true) 2]
    obtain ⟨ks', hks', hsecond⟩ := signers_addAll (sampleEntry.addAll [msgWith (memberKey true) 2])
      [msgWith (memberKey false) 2]
    have hle := hks.length_le
    have hle' := hks'.length_le
    have hnone : (signers sampleEntry.record).length = 0 := rfl
    rw [List.length_map, List.length_singleton] at hle hle'
    unfold signedEntry
    rw [hsecond, hfirst, List.length_append, List.length_append]
    omega

end Covenant.Quorum
